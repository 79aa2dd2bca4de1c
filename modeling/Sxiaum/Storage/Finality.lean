import Sxiaum.Lib.Watermark
import Sxiaum.Storage.Backends

/-!
# Finality of stored blocks

`ChainView` is what finality is about: the finalized height and the three rows that make up
the canonical block of a height. `ChainView.Step` says what an operation that succeeds does
to it; both backends follow it (`MemoryBackend.step_view`, `StorageEngine.step_view`).
Reverting and pruning look at the finalized height; storing a block and moving the finalized
height do not, and `ChainView.Allowed` is what is left for their callers to watch.
-/

namespace Sxiaum.Storage

open Watermark

/-! ### The view -/

/-- The finalized height and the rows of the canonical blocks. -/
@[ext] structure ChainView where
  finalized : Option ℕ
  canonicalChain : ℕ → Option Hash
  blockHeaders : ℕ → Option (List UInt8)
  blockBodies : ℕ → Option (List UInt8)

def Tables.view (t : Tables) (finalized : Option ℕ) : ChainView where
  finalized := finalized
  canonicalChain := fun h => t.canonicalChain.lookup h
  blockHeaders := fun h => t.blockHeaders.lookup h
  blockBodies := fun h => t.blockBodies.lookup h

namespace ChainView

variable (v : ChainView)

/-- The rows of a block, without the canonical hash. -/
def write (height : ℕ) (headerBytes bodyBytes : List UInt8) : ChainView :=
  { v with
    blockHeaders := Function.update v.blockHeaders height (some headerBytes)
    blockBodies := Function.update v.blockBodies height (some bodyBytes) }

def writeCanonical (height : ℕ) (blockHash : Hash) (headerBytes bodyBytes : List UInt8) :
    ChainView :=
  { v.write height headerBytes bodyBytes with
    canonicalChain := Function.update v.canonicalChain height (some blockHash) }

def remove (gone : ℕ → Bool) : ChainView :=
  { v with
    canonicalChain := fun h => if gone h then none else v.canonicalChain h
    blockHeaders := fun h => if gone h then none else v.blockHeaders h
    blockBodies := fun h => if gone h then none else v.blockBodies h }

lemma remove_none : v.remove (fun _ => false) = v := rfl

lemma remove_remove (gone gone' : ℕ → Bool) :
    (v.remove gone).remove gone' = v.remove fun h => gone h || gone' h := by
  ext1
  · rfl
  all_goals
    funext h
    by_cases hgone : gone h = true <;> simp [remove, hgone]

/-- What an operation does when it succeeds. -/
inductive Step (codec : BlockCodec) : ChainView → StorageOp → ChainView → Prop where
  | storeCanonicalBlock {v : ChainView} {height : ℕ} {blockHash : Hash} {header : BlockHeader}
      {body : BlockBody} {headerBytes bodyBytes : List UInt8}
      (hheader : codec.encodeHeader header = .ok headerBytes)
      (hbody : codec.encodeBody body = .ok bodyBytes) :
      Step codec v (.storeCanonicalBlock height blockHash header body)
        (v.writeCanonical height blockHash headerBytes bodyBytes)
  | atomicBlockCommit {v : ChainView} {height : ℕ} {headerBytes bodyBytes : List UInt8} :
      Step codec v (.atomicBlockCommit height headerBytes bodyBytes)
        (v.write height headerBytes bodyBytes)
  | revertBlock {v : ChainView} {height : ℕ} {gone : ℕ → Bool}
      (habove : ∀ f ∈ v.finalized, ∀ h, gone h → f < h) :
      Step codec v (.revertBlock height) (v.remove gone)
  | revertBlocksTo {v : ChainView} {targetHeight : ℕ} {gone : ℕ → Bool}
      (habove : ∀ f ∈ v.finalized, ∀ h, gone h → f < h) :
      Step codec v (.revertBlocksTo targetHeight) (v.remove gone)
  | setFinalizedHeight {v : ChainView} {height : ℕ} {blockHash : Hash} :
      Step codec v (.setFinalizedHeight height blockHash) { v with finalized := some height }
  | setSafeHeight {v : ChainView} {height : ℕ} : Step codec v (.setSafeHeight height) v
  | pruneBlocksBefore {v : ChainView} {height : ℕ} {gone : ℕ → Bool}
      (hbelow : ∀ f ∈ v.finalized, ∀ h, gone h → h < f) :
      Step codec v (.pruneBlocksBefore height) (v.remove gone)

/-! ### Protection -/

/-- Every column is protected by the finalized height. -/
structure Protects (v v' : ChainView) : Prop where
  canonicalChain : Watermark.Protects v.finalized v'.finalized v.canonicalChain v'.canonicalChain
  blockHeaders : Watermark.Protects v.finalized v'.finalized v.blockHeaders v'.blockHeaders
  blockBodies : Watermark.Protects v.finalized v'.finalized v.blockBodies v'.blockBodies

/-- What the caller of an operation has to watch: a block is written above the finalized
height, or is the block that is there already, or the first one at the finalized height; and
the finalized height is not lowered. -/
def Allowed (codec : BlockCodec) : StorageOp → Prop
  | .storeCanonicalBlock height blockHash header body =>
    Writable v.finalized v.canonicalChain height blockHash ∧
    (∀ bytes, codec.encodeHeader header = .ok bytes →
      Writable v.finalized v.blockHeaders height bytes) ∧
    ∀ bytes, codec.encodeBody body = .ok bytes → Writable v.finalized v.blockBodies height bytes
  | .atomicBlockCommit height headerBytes bodyBytes =>
    Writable v.finalized v.blockHeaders height headerBytes ∧
      Writable v.finalized v.blockBodies height bodyBytes
  | .setFinalizedHeight height _ => ∀ f ∈ v.finalized, f ≤ height
  | .revertBlock _ | .revertBlocksTo _ | .setSafeHeight _ | .pruneBlocksBefore _ => True

variable {v} {v' v'' : ChainView} {codec : BlockCodec} {op : StorageOp}

lemma Protects.refl (v : ChainView) : Protects v v :=
  ⟨.refl _ _, .refl _ _, .refl _ _⟩

lemma Protects.trans (h : Protects v v') (h' : Protects v' v'') : Protects v v'' :=
  ⟨h.canonicalChain.trans h'.canonicalChain, h.blockHeaders.trans h'.blockHeaders,
    h.blockBodies.trans h'.blockBodies⟩

lemma protects_update {ν : Type} {mark : Option ℕ} {table : ℕ → Option ν} {k : ℕ} {x : ν} :
    Watermark.Protects mark mark table (Function.update table k (some x)) ↔
      Writable mark table k x :=
  protects_write (Function.update_self ..) fun _ hne => Function.update_of_ne hne ..

lemma protects_remove {gone : ℕ → Bool}
    (h : ∀ f ∈ v.finalized, ∀ k, gone k → f < k ∨ k < f) : Protects v (v.remove gone) := by
  have hcolumn {ν : Type} (table : ℕ → Option ν) :
      Watermark.Protects v.finalized v.finalized table
        fun k => if gone k then none else table k := by
    refine fun f hf => ⟨f, hf, le_rfl, fun k hk => ?_⟩
    by_cases hgone : gone k = true
    · exact .inr (.inl ⟨if_pos hgone, (h f hf k hgone).resolve_left hk.not_gt⟩)
    · exact .inl (if_neg hgone)
  exact ⟨hcolumn _, hcolumn _, hcolumn _⟩

lemma Step.congr_right (h : Step codec v op v') (heq : v'' = v') : Step codec v op v'' :=
  heq ▸ h

/-- An operation that succeeds protects the finalized blocks if and only if it is allowed. -/
theorem Step.protects_iff (h : Step codec v op v') : Protects v v' ↔ v.Allowed codec op := by
  cases h with
  | storeCanonicalBlock hheader hbody =>
    simp only [Allowed, hheader, hbody, Except.ok.injEq, forall_eq']
    constructor
    · rintro ⟨hcanonical, hheaders, hbodies⟩
      exact ⟨protects_update.1 hcanonical, protects_update.1 hheaders, protects_update.1 hbodies⟩
    · rintro ⟨hcanonical, hheaders, hbodies⟩
      exact ⟨protects_update.2 hcanonical, protects_update.2 hheaders, protects_update.2 hbodies⟩
  | atomicBlockCommit =>
    constructor
    · rintro ⟨-, hheaders, hbodies⟩
      exact ⟨protects_update.1 hheaders, protects_update.1 hbodies⟩
    · rintro ⟨hheaders, hbodies⟩
      exact ⟨.refl _ _, protects_update.2 hheaders, protects_update.2 hbodies⟩
  | revertBlock habove | revertBlocksTo habove =>
    exact iff_of_true (protects_remove fun f hf k hk => .inl (habove f hf k hk)) trivial
  | setFinalizedHeight =>
    constructor
    · rintro ⟨hcanonical, -, -⟩
      exact protects_raise.1 hcanonical
    · intro hle
      exact ⟨protects_raise.2 hle, protects_raise.2 hle, protects_raise.2 hle⟩
  | setSafeHeight => exact iff_of_true (.refl v) trivial
  | pruneBlocksBefore hbelow =>
    exact iff_of_true (protects_remove fun f hf k hk => .inr (hbelow f hf k hk)) trivial

end ChainView

/-! ### What the tables do to the view -/

namespace Tables

variable {codec : BlockCodec} {t : Tables} {finalized : Option ℕ}

lemma view_insertRows {height : ℕ} {headerBytes bodyBytes : List UInt8} :
    (t.insertRows height headerBytes bodyBytes).view finalized =
      (t.view finalized).write height headerBytes bodyBytes := by
  ext1
  · rfl
  · rfl
  all_goals
    funext h
    rcases eq_or_ne h height with rfl | hne
    · simp [view, insertRows, ChainView.write]
    · simp [view, insertRows, ChainView.write, hne, AList.lookup_insert_ne hne]

lemma view_insertCanonical {height : ℕ} {blockHash : Hash} {headerBytes bodyBytes : List UInt8} :
    (t.insertCanonical height blockHash headerBytes bodyBytes).view finalized =
      (t.view finalized).writeCanonical height blockHash headerBytes bodyBytes := by
  have hcanonical : (fun h => (t.canonicalChain.insert height blockHash).lookup h) =
      Function.update (fun h => t.canonicalChain.lookup h) height (some blockHash) := by
    funext h
    rcases eq_or_ne h height with rfl | hne
    · simp
    · simp [hne, AList.lookup_insert_ne hne]
  rw [ChainView.writeCanonical, ← view_insertRows]
  exact congrArg (fun column => (⟨_, column, _, _⟩ : ChainView)) hcanonical

/-- Indexing the transactions touches the two transaction tables only. -/
lemma indexTransactions_frame {height : ℕ} {txs : List Transaction} :
    ∃ transactions txBlockIndex, (indexTransactions codec height txs t).2 =
      { t with transactions := transactions, txBlockIndex := txBlockIndex } := by
  induction txs generalizing t with
  | nil => exact ⟨_, _, rfl⟩
  | cons tx txs ih =>
    rw [indexTransactions]
    split
    · exact ⟨_, _, rfl⟩
    · split
      · exact ⟨_, _, rfl⟩
      · exact ih

lemma indexReceipts_frame {receipts : List Receipt} :
    ∃ table, (indexReceipts codec receipts t).2 = { t with receipts := table } := by
  induction receipts generalizing t with
  | nil => exact ⟨_, rfl⟩
  | cons receipt receipts ih =>
    rw [indexReceipts]
    split
    · exact ⟨_, rfl⟩
    · exact ih

lemma storeCanonical_frame {t' : Tables} {height : ℕ} {blockHash : Hash}
    {headerBytes bodyBytes : List UInt8} {body : BlockBody} {r : Except String Unit}
    (h : t.storeCanonical codec height blockHash headerBytes bodyBytes body = (r, t')) :
    ∃ transactions txBlockIndex receipts, t' =
      { t.insertCanonical height blockHash headerBytes bodyBytes with
        transactions := transactions, txBlockIndex := txBlockIndex, receipts := receipts } := by
  obtain ⟨transactions, txBlockIndex, hindexed⟩ :
      ∃ transactions txBlockIndex, (indexTransactions codec height body.transactions
        (t.insertCanonical height blockHash headerBytes bodyBytes)).2 = _ := indexTransactions_frame
  rw [storeCanonical] at h
  generalize indexTransactions codec height body.transactions _ = indexed at hindexed h
  obtain ⟨_ | ⟨⟩, t₁⟩ := indexed
  · cases h
    exact ⟨transactions, txBlockIndex, _, hindexed⟩
  · obtain ⟨receipts, hreceipts⟩ : ∃ receipts, (indexReceipts codec body.receipts t₁).2 = _ :=
      indexReceipts_frame
    subst hindexed
    exact ⟨transactions, txBlockIndex, receipts, (congrArg Prod.snd h).symm.trans hreceipts⟩

lemma revertHeight_frame (codec : BlockCodec) (t : Tables) (height : ℕ) :
    ∃ txBlockIndex receipts, t.revertHeight codec height =
      { t.removeHeight height with txBlockIndex := txBlockIndex, receipts := receipts } := by
  rw [revertHeight]
  split
  · exact ⟨_, _, rfl⟩
  · split <;> exact ⟨_, _, rfl⟩

lemma view_removeHeight {height : ℕ} :
    (t.removeHeight height).view finalized = (t.view finalized).remove (· == height) := by
  ext1
  · rfl
  all_goals
    funext h
    by_cases heq : h = height
    · simp [view, removeHeight, ChainView.remove, heq]
    · simp [view, removeHeight, ChainView.remove, heq, AList.lookup_erase_ne heq]

lemma view_revertHeight {height : ℕ} :
    (t.revertHeight codec height).view finalized = (t.view finalized).remove (· == height) := by
  obtain ⟨_, _, hframe⟩ := revertHeight_frame codec t height
  rw [← view_removeHeight, hframe]
  rfl

/-- Heights that lie in a stretch above `target`. -/
def stretch (target count : ℕ) (h : ℕ) : Bool := decide (target < h ∧ h ≤ target + count)

lemma stretch_zero (target : ℕ) : stretch target 0 = fun _ => false := by
  funext h
  rw [stretch, decide_eq_false_iff_not]
  omega

lemma stretch_succ (target count : ℕ) :
    (fun h => h == target + count + 1 || stretch target count h) = stretch target (count + 1) := by
  funext h
  rw [Bool.eq_iff_iff, Bool.or_eq_true, beq_iff_eq, stretch, stretch, decide_eq_true_iff,
    decide_eq_true_iff]
  omega

lemma view_revertDown {target count : ℕ} :
    (revertDown codec target count t).view finalized =
      (t.view finalized).remove (stretch target count) := by
  induction count generalizing t with
  | zero =>
    rw [stretch_zero]
    rfl
  | succ count ih =>
    rw [revertDown, ih, view_revertHeight, ChainView.remove_remove, stretch_succ]

lemma view_foldl_removeHeight {heights : List ℕ} :
    (heights.foldl removeHeight t).view finalized =
      (t.view finalized).remove fun h => decide (h ∈ heights) := by
  induction heights generalizing t with
  | nil => rfl
  | cons height heights ih =>
    rw [List.foldl_cons, ih, view_removeHeight, ChainView.remove_remove]
    congr
    funext h
    rw [Bool.eq_iff_iff]
    simp

lemma finalizedBlocks_foldl_removeHeight {heights : List ℕ} :
    (heights.foldl removeHeight t).finalizedBlocks = t.finalizedBlocks := by
  induction heights generalizing t with
  | nil => rfl
  | cons height heights ih => exact ih

lemma mem_heightsBefore {height h : ℕ} (hmem : h ∈ t.heightsBefore height) : h < height := by
  rw [heightsBefore, List.mem_dedup, List.mem_filter, decide_eq_true_iff] at hmem
  exact hmem.2

end Tables

/-! ### The backends follow the view -/

open ChainView Tables

/-- A reply that is only reworded. -/
lemma map_reply_ok {α σ : Type} {p : Except StorageError α × σ} {f : α → Reply} {r : Reply}
    {s : σ} (h : p.map (·.map f) id = (.ok r, s)) : ∃ a, p = (.ok a, s) := by
  rcases p with ⟨_ | a, t⟩
  · nomatch h
  · cases h
    exact ⟨a, rfl⟩

lemma stretch_above {finalized : Option ℕ} {target count : ℕ}
    (h : checkRevert finalized (target + 1) = .ok ()) :
    ∀ f ∈ finalized, ∀ k, stretch target count k → f < k := by
  intro f hf k hk
  have hlt := checkRevert_ok.1 h f hf
  rw [stretch, decide_eq_true_iff] at hk
  omega

lemma heightsBefore_below {finalized : Option ℕ} {height : ℕ} (t : Tables)
    (h : checkPrune finalized height = .ok ()) :
    ∀ f ∈ finalized, ∀ k, decide (k ∈ t.heightsBefore height) → k < f := by
  intro f hf k hk
  exact (mem_heightsBefore (of_decide_eq_true hk)).trans_le (checkPrune_ok h f hf)

variable {codec : BlockCodec}

namespace MemoryBackend

variable {s s' : MemoryBackend}

def view (s : MemoryBackend) : ChainView := s.tables.view s.getFinalizedHeight

lemma view_storeCanonicalBlock {height : ℕ} {blockHash : Hash} {header : BlockHeader}
    {body : BlockBody}
    (h : s.storeCanonicalBlock codec height blockHash header body = (.ok (), s')) :
    ChainView.Step codec s.view (.storeCanonicalBlock height blockHash header body) s'.view := by
  rw [storeCanonicalBlock] at h
  split at h
  · nomatch h
  · next hcheck =>
    obtain ⟨hheader, hbody⟩ := checkCanonicalBlock_ok hcheck
    split at h
    · nomatch h
    · next ht =>
      obtain ⟨_, _, _, rfl⟩ := storeCanonical_frame ht
      cases h
      exact (ChainView.Step.storeCanonicalBlock hheader hbody).congr_right view_insertCanonical

lemma view_revertBlock {height : ℕ} (h : s.revertBlock codec height = (.ok (), s')) :
    s'.getFinalizedHeight = s.getFinalizedHeight ∧ (∀ f ∈ s.getFinalizedHeight, f < height) ∧
      s'.view = s.view.remove (· == height) := by
  rw [revertBlock] at h
  split at h
  · nomatch h
  · next hcheck =>
    cases h
    obtain ⟨_, _, hframe⟩ := revertHeight_frame codec s.tables height
    have hfinalized : MemoryBackend.getFinalizedHeight
        { s with
          tables := s.tables.revertHeight codec height
          height := if height ≤ s.height then height - 1 else s.height } =
        s.getFinalizedHeight := by
      rw [getFinalizedHeight, hframe]
      rfl
    refine ⟨hfinalized, checkRevert_ok.1 hcheck, ?_⟩
    rw [view, hfinalized]
    exact view_revertHeight

lemma view_revertDown {target count : ℕ} (h : revertDown codec target count s = (.ok (), s')) :
    s'.view = s.view.remove (stretch target count) := by
  induction count generalizing s with
  | zero =>
    cases h
    rw [stretch_zero]
    rfl
  | succ count ih =>
    rw [revertDown] at h
    split at h
    · nomatch h
    · next hstep =>
      rw [ih h, (view_revertBlock hstep).2.2, remove_remove, stretch_succ]

lemma view_revertBlocksTo {targetHeight n : ℕ}
    (h : s.revertBlocksTo codec targetHeight = (.ok n, s')) :
    ChainView.Step codec s.view (.revertBlocksTo targetHeight) s'.view := by
  rw [revertBlocksTo] at h
  split_ifs at h
  · cases h
    rw [← s.view.remove_none]
    exact .revertBlocksTo nofun
  · split at h
    · nomatch h
    · next hcheck =>
      split at h
      · nomatch h
      · next hdown =>
        cases h
        rw [view_revertDown hdown]
        exact .revertBlocksTo (stretch_above hcheck)

lemma view_pruneBlocksBefore {height n : ℕ} (h : s.pruneBlocksBefore height = (.ok n, s')) :
    ChainView.Step codec s.view (.pruneBlocksBefore height) s'.view := by
  rw [pruneBlocksBefore] at h
  split at h
  · nomatch h
  · next hcheck =>
    cases h
    refine (ChainView.Step.pruneBlocksBefore (heightsBefore_below s.tables hcheck)).congr_right ?_
    have hfinalized : getFinalizedHeight { s with tables := s.tables.pruneBefore height } =
        s.getFinalizedHeight := by
      rw [getFinalizedHeight, pruneBefore, finalizedBlocks_foldl_removeHeight]
      rfl
    rw [view, hfinalized]
    exact view_foldl_removeHeight

/-- Marking a height finalizes it, height zero included. -/
lemma view_setFinalizedHeight {height : ℕ} {blockHash : Hash} :
    (s.setFinalizedHeight height blockHash).view = { s.view with finalized := some height } := by
  have hfinalized : (s.setFinalizedHeight height blockHash).getFinalizedHeight = some height := by
    rw [getFinalizedHeight, if_neg]
    · rfl
    · rintro ⟨rfl : height = 0, hnot⟩
      exact hnot (AList.mem_insert _ |>.2 (.inl rfl))
  rw [view, hfinalized]
  rfl

/-- An operation of the in-memory backend that succeeds is a step of the view. -/
lemma stepShared_view {op : StorageOp} {r : Reply} (h : s.stepShared codec op = (.ok r, s')) :
    ChainView.Step codec s.view op s'.view := by
  cases op with
  | storeCanonicalBlock height blockHash header body =>
    obtain ⟨⟨⟩, h⟩ := map_reply_ok h
    exact view_storeCanonicalBlock h
  | atomicBlockCommit height headerBytes bodyBytes =>
    cases h
    exact ChainView.Step.atomicBlockCommit.congr_right view_insertRows
  | revertBlock height =>
    obtain ⟨⟨⟩, h⟩ := map_reply_ok h
    obtain ⟨-, habove, hview⟩ := view_revertBlock h
    rw [hview]
    exact .revertBlock fun f hf k hk => eq_of_beq hk ▸ habove f hf
  | revertBlocksTo targetHeight =>
    obtain ⟨n, h⟩ := map_reply_ok h
    exact view_revertBlocksTo h
  | setFinalizedHeight height blockHash =>
    cases h
    exact ChainView.Step.setFinalizedHeight.congr_right view_setFinalizedHeight
  | setSafeHeight height =>
    cases h
    exact .setSafeHeight
  | pruneBlocksBefore height =>
    obtain ⟨n, h⟩ := map_reply_ok h
    exact view_pruneBlocksBefore h

end MemoryBackend

namespace StorageEngine

variable {s s' : StorageEngine}

def view (s : StorageEngine) : ChainView := s.tables.view s.finalizedHeight

lemma view_storeCanonicalBlock {height : ℕ} {blockHash : Hash} {header : BlockHeader}
    {body : BlockBody}
    (h : s.storeCanonicalBlock codec height blockHash header body = (.ok (), s')) :
    ChainView.Step codec s.view (.storeCanonicalBlock height blockHash header body) s'.view := by
  rw [storeCanonicalBlock] at h
  split at h
  · nomatch h
  · next hcheck =>
    obtain ⟨hheader, hbody⟩ := checkCanonicalBlock_ok hcheck
    split at h
    · nomatch h
    · next ht =>
      obtain ⟨_, _, _, rfl⟩ := storeCanonical_frame ht
      cases h
      exact (ChainView.Step.storeCanonicalBlock hheader hbody).congr_right view_insertCanonical

lemma view_revertBlock {height : ℕ} (h : s.revertBlock codec height = (.ok (), s')) :
    ChainView.Step codec s.view (.revertBlock height) s'.view := by
  rw [revertBlock] at h
  split at h
  · nomatch h
  · next hcheck =>
    cases h
    refine ChainView.Step.congr_right (.revertBlock fun f hf k hk => ?_) view_revertHeight
    exact eq_of_beq hk ▸ checkRevert_ok.1 hcheck f hf

lemma view_revertBlocksTo {targetHeight n : ℕ}
    (h : s.revertBlocksTo codec targetHeight = (.ok n, s')) :
    ChainView.Step codec s.view (.revertBlocksTo targetHeight) s'.view := by
  rw [revertBlocksTo] at h
  split_ifs at h
  · cases h
    rw [← s.view.remove_none]
    exact .revertBlocksTo nofun
  · split at h
    · nomatch h
    · next hcheck =>
      cases h
      exact (ChainView.Step.revertBlocksTo (stretch_above hcheck)).congr_right view_revertDown

lemma view_pruneBlocksBefore {height n : ℕ} (h : s.pruneBlocksBefore height = (.ok n, s')) :
    ChainView.Step codec s.view (.pruneBlocksBefore height) s'.view := by
  rw [pruneBlocksBefore] at h
  split at h
  · nomatch h
  · next hcheck =>
    cases h
    exact (ChainView.Step.pruneBlocksBefore (heightsBefore_below s.tables hcheck)).congr_right
      view_foldl_removeHeight

/-- An operation of the redb backend that succeeds is a step of the view. -/
lemma step_view {op : StorageOp} {r : Reply} (h : s.step codec op = (.ok r, s')) :
    ChainView.Step codec s.view op s'.view := by
  cases op with
  | storeCanonicalBlock height blockHash header body =>
    obtain ⟨⟨⟩, h⟩ := map_reply_ok h
    exact view_storeCanonicalBlock h
  | atomicBlockCommit height headerBytes bodyBytes =>
    cases h
    exact ChainView.Step.atomicBlockCommit.congr_right view_insertRows
  | revertBlock height =>
    obtain ⟨⟨⟩, h⟩ := map_reply_ok h
    exact view_revertBlock h
  | revertBlocksTo targetHeight =>
    obtain ⟨n, h⟩ := map_reply_ok h
    exact view_revertBlocksTo h
  | setFinalizedHeight height blockHash =>
    cases h
    exact .setFinalizedHeight
  | setSafeHeight height =>
    cases h
    exact .setSafeHeight
  | pruneBlocksBefore height =>
    obtain ⟨n, h⟩ := map_reply_ok h
    exact view_pruneBlocksBefore h

end StorageEngine

/-! ### Runs -/

/-- A row at a finalized height is as it was, or has been pruned since: it lies below the
finalized height of now. -/
def RowFinal {ν : Type} (f' h : ℕ) (old new : ℕ → Option ν) : Prop :=
  ∀ x, old h = some x → new h = some x ∨ new h = none ∧ h < f'

/-- The finalized height has not gone down, and no block at or below it has been replaced. -/
def FinalityKept (v v' : ChainView) : Prop :=
  ∀ f ∈ v.finalized, ∃ f' ∈ v'.finalized, f ≤ f' ∧ ∀ h ≤ f,
    RowFinal f' h v.canonicalChain v'.canonicalChain ∧
    RowFinal f' h v.blockHeaders v'.blockHeaders ∧
    RowFinal f' h v.blockBodies v'.blockBodies

lemma ChainView.Protects.finalityKept {v v' : ChainView} (h : v.Protects v') :
    FinalityKept v v' := by
  intro f hf
  obtain ⟨f', hf', hkept⟩ := h.canonicalChain f hf
  have hrow {ν : Type} {old new : ℕ → Option ν}
      (hcolumn : Watermark.Protects v.finalized v'.finalized old new) :
      ∀ k ≤ f, RowFinal f' k old new := by
    intro k hk x hx
    obtain ⟨f'', hf'', -, hrow⟩ := hcolumn.row hf hk hx
    rwa [Option.mem_unique hf' hf'']
  exact ⟨f', hf', hkept.le, fun k hk =>
    ⟨hrow h.canonicalChain k hk, hrow h.blockHeaders k hk, hrow h.blockBodies k hk⟩⟩

/-- An allowed operation of the in-memory backend that returns `Ok`. -/
def MemoryBackend.AllowedStep (codec : BlockCodec) (s s' : MemoryBackend) : Prop :=
  ∃ op r, s.step codec op = (.ok r, s') ∧
    match op with
    | .shared op => s.view.Allowed codec op
    | .setLatestHeight _ => True

/-- An allowed operation of the redb backend that returns `Ok`. -/
def StorageEngine.AllowedStep (codec : BlockCodec) (s s' : StorageEngine) : Prop :=
  ∃ op r, s.step codec op = (.ok r, s') ∧ s.view.Allowed codec op

lemma MemoryBackend.AllowedStep.protects {s s' : MemoryBackend}
    (h : MemoryBackend.AllowedStep codec s s') : s.view.Protects s'.view := by
  obtain ⟨op, r, hstep, hallowed⟩ := h
  cases op with
  | shared op => exact (MemoryBackend.stepShared_view hstep).protects_iff.2 hallowed
  | setLatestHeight height =>
    cases hstep
    exact .refl _

lemma StorageEngine.AllowedStep.protects {s s' : StorageEngine}
    (h : StorageEngine.AllowedStep codec s s') : s.view.Protects s'.view := by
  obtain ⟨op, r, hstep, hallowed⟩ := h
  exact (StorageEngine.step_view hstep).protects_iff.2 hallowed

/-- In every run of allowed operations, finality is kept, on both backends. -/
theorem finality_of_allowed (codec : BlockCodec) :
    (∀ s t : MemoryBackend, Relation.ReflTransGen (MemoryBackend.AllowedStep codec) s t →
      FinalityKept s.view t.view) ∧
    ∀ s t : StorageEngine, Relation.ReflTransGen (StorageEngine.AllowedStep codec) s t →
      FinalityKept s.view t.view := by
  constructor
  · intro s t h
    have hprotects := run_of_step (R := fun s t : MemoryBackend => s.view.Protects t.view)
      (fun _ => .refl _) (fun _ _ _ => .trans) (fun _ _ => MemoryBackend.AllowedStep.protects) h
    exact hprotects.finalityKept
  · intro s t h
    have hprotects := run_of_step (R := fun s t : StorageEngine => s.view.Protects t.view)
      (fun _ => .refl _) (fun _ _ _ => .trans) (fun _ _ => StorageEngine.AllowedStep.protects) h
    exact hprotects.finalityKept

/-! ### A finalized block is replaced -/

/-- A codec under which the timestamp is the hash of a header. -/
def toyCodec : BlockCodec where
  headerHash := fun header => .ok header.timestamp
  computeTxRoot := fun _ => .ok 0
  computeReceiptRoot := fun _ => .ok 0
  encodeHeader := fun header => .ok [UInt8.ofNat header.timestamp]
  encodeBody := fun _ => .ok []
  decodeBody := fun _ => .ok ⟨[], []⟩
  txHash := fun _ => .ok 0
  encodeTx := fun _ => .ok []
  encodeReceipt := fun _ => .ok []

def toyHeader (height timestamp : ℕ) : BlockHeader :=
  { BlockHeader.sample 0 height 1 with timestamp := timestamp, signature := none }

def toyStore (height timestamp : ℕ) : StorageOp :=
  .storeCanonicalBlock height timestamp (toyHeader height timestamp) ⟨[], []⟩

def toyMemory : MemoryBackend :=
  ((MemoryBackend.new.stepShared toyCodec (toyStore 1 7)).2.stepShared toyCodec
    (.setFinalizedHeight 1 7)).2

def toyEngine : StorageEngine :=
  ((StorageEngine.new.step toyCodec (toyStore 1 7)).2.step toyCodec (.setFinalizedHeight 1 7)).2

/-- Storing block 8 at the finalized height succeeds and replaces block 7, an atomic commit
replaces the rows of its header and body, and the finalized height can be set back. -/
theorem finalized_block_replaced :
    (toyMemory.view.finalized = some 1 ∧ toyMemory.view.canonicalChain 1 = some 7 ∧
      (toyMemory.stepShared toyCodec (toyStore 1 8)).1 = .ok .done ∧
      (toyMemory.stepShared toyCodec (toyStore 1 8)).2.view.canonicalChain 1 = some 8 ∧
      (toyMemory.stepShared toyCodec (.atomicBlockCommit 1 [9] [])).2.view.blockHeaders 1 =
        some [9] ∧
      (toyMemory.stepShared toyCodec (.setFinalizedHeight 0 0)).2.view.finalized = some 0) ∧
    toyEngine.view.finalized = some 1 ∧ toyEngine.view.canonicalChain 1 = some 7 ∧
      (toyEngine.step toyCodec (toyStore 1 8)).1 = .ok .done ∧
      (toyEngine.step toyCodec (toyStore 1 8)).2.view.canonicalChain 1 = some 8 ∧
      (toyEngine.step toyCodec (.atomicBlockCommit 1 [9] [])).2.view.blockHeaders 1 = some [9] ∧
      (toyEngine.step toyCodec (.setFinalizedHeight 0 0)).2.view.finalized = some 0 := by
  decide +kernel

def toyNext : List StorageOp :=
  [toyStore 2 8, .setFinalizedHeight 2 8, .pruneBlocksBefore 2]

/-- Block 7 is kept until it is pruned, on both backends. -/
theorem finality_of_next_block :
    FinalityKept toyMemory.view
      (toyNext.foldl (fun s op => (s.stepShared toyCodec op).2) toyMemory).view ∧
    FinalityKept toyEngine.view
      (toyNext.foldl (fun s op => (s.step toyCodec op).2) toyEngine).view := by
  have hstore {v : ChainView} (hv : v.finalized = some 1) : v.Allowed toyCodec (toyStore 2 8) := by
    refine ⟨fun f hf => ?_, fun _ _ f hf => ?_, fun _ _ f hf => ?_⟩ <;>
    · obtain rfl : 1 = f := Option.some.inj (hv.symm.trans hf)
      exact .inl Nat.one_lt_two
  have hfinalize {v : ChainView} (hv : v.finalized = some 1) :
      v.Allowed toyCodec (.setFinalizedHeight 2 8) := by
    intro f hf
    obtain rfl : 1 = f := Option.some.inj (hv.symm.trans hf)
    exact Nat.le_succ 1
  constructor
  · exact (finality_of_allowed toyCodec).1 _ _ (.tail (.tail (.single
      ⟨.shared (toyStore 2 8), .done, rfl, hstore rfl⟩)
      ⟨.shared (.setFinalizedHeight 2 8), .done, rfl, hfinalize rfl⟩)
      ⟨.shared (.pruneBlocksBefore 2), .count 1, rfl, trivial⟩)
  · exact (finality_of_allowed toyCodec).2 _ _ (.tail (.tail (.single
      ⟨toyStore 2 8, .done, rfl, hstore rfl⟩)
      ⟨.setFinalizedHeight 2 8, .done, rfl, hfinalize rfl⟩)
      ⟨.pruneBlocksBefore 2, .count 1, rfl, trivial⟩)

end Sxiaum.Storage
