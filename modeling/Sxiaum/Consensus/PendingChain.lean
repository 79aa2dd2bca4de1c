import Sxiaum.Consensus.CertificateFlow
import Sxiaum.Lib.LinkedChain

/-!
# Pending blocks form one chain

In a run without restarts, over a storage that holds at most the genesis block, the pending
blocks always form one chain above the finalized tip. It follows that the finalized blocks
form an unbroken chain exactly when no certificate finalizes a block past a gap.
-/

namespace Sxiaum

open BlockState

namespace BlockState

variable {env : Env} {t : BlockState} {block b : Block}

/-- The hash that a block directly above the finalized height links to. -/
def root (env : Env) (t : BlockState) : Option Hash :=
  match t.finalized with
  | some (_, f) => some (env.hash f)
  | none => (t.headers.lookup 0).map fun header => env.hashHeader header.unsigned

def pendingSet (t : BlockState) : Set Block := { b | b ∈ t.pending.values }

/-- The pending blocks form one chain above the finalized tip, and storage holds no block
above that tip. -/
structure WellFormed (env : Env) (t : BlockState) : Prop where
  keyed : ∀ h b, t.pending.lookup h = some b → env.hash b = h
  chain : LinkedChain env.hash Block.parentHash Block.height (t.root env) t.height t.pendingSet
  committed : t.committed = ∅
  tip : ∀ f, t.finalized = some f → f.1 = f.2.height ∧ t.height = f.1
  genesis : t.finalized = none → t.height = 0
  stored : ∀ h header, t.headers.lookup h = some header → h ≤ t.height ∧ header.height = h
  rootStored : ∀ header, t.headers.lookup t.height = some header →
    t.root env = some (env.hashHeader header.unsigned)

lemma Keyed.mem_pendingSet (h : t.Keyed env) :
    b ∈ t.pendingSet ↔ t.pending.lookup (env.hash b) = some b := by
  refine AList.mem_values.trans ⟨?_, fun hb => ⟨_, hb⟩⟩
  rintro ⟨k, hk⟩
  rwa [h k b hk]

/-- A block may be linked to the pending chain. -/
def LinksTo (env : Env) (t : BlockState) (block : Block) : Prop :=
  LinkedChain.Links env.hash Block.parentHash Block.height (t.root env) t.height t.pendingSet block

namespace WellFormed

variable {removed : List Hash} (h : t.WellFormed env)

include h

lemma placed : t.Placed env :=
  ⟨h.keyed, fun k b hk => h.chain.above b (AList.mem_values.2 ⟨k, hk⟩), h.committed, h.tip⟩

lemma mem_pendingSet : b ∈ t.pendingSet ↔ t.pending.lookup (env.hash b) = some b :=
  Keyed.mem_pendingSet h.keyed

lemma eq_of_hash_eq {a : Block} (ha : a ∈ t.pendingSet)
    (hb : b ∈ t.pendingSet) (hh : env.hash a = env.hash b) : a = b := by
  have ha' := h.mem_pendingSet.1 ha
  rw [hh, h.mem_pendingSet.1 hb] at ha'
  exact (Option.some.inj ha').symm

lemma mem_pendingSet_drop :
    b ∈ (t.drop removed).pendingSet ↔ b ∈ t.pendingSet ∧ env.hash b ∉ removed := by
  rw [Keyed.mem_pendingSet (h.placed.drop removed).keyed, lookup_drop, h.mem_pendingSet]
  split_ifs with hmem <;> simp [hmem]

lemma mem_pendingSet_addPending :
    b ∈ (t.addPending env block).pendingSet ↔
      b = block ∨ b ∈ t.pendingSet ∧ env.hash b ≠ env.hash block := by
  rw [@Keyed.mem_pendingSet _ (t.addPending env block) _ (AList.forall_lookup_insert h.keyed rfl),
    h.mem_pendingSet, BlockState.addPending]
  by_cases hhash : env.hash b = env.hash block
  · rw [hhash, AList.lookup_insert]
    simp [eq_comm]
  · rw [AList.lookup_insert_ne hhash]
    exact ⟨fun hb => .inr ⟨hb, hhash⟩, fun hb => (hb.resolve_left fun heq => hhash (heq ▸ rfl)).1⟩

/-! ### Steps of the block state -/

lemma certify (hash : Hash) : (t.certify env hash).WellFormed env := by
  obtain ⟨highest, heq⟩ := @certify_eq env t hash
  rw [heq]
  exact { h with }

variable (hinj : Function.Injective env.hashHeader)

include hinj

/-- No pending block is the finalized tip or the stored block below the chain. -/
lemma ne_root (hb : b ∈ t.pendingSet) : some (env.hash b) ≠ t.root env := by
  intro heq
  have habove : t.height < b.height := h.chain.above b hb
  cases hf : t.finalized with
  | some f =>
    rw [root, hf] at heq
    have hh := (Env.header_eq_of_hash_eq hinj (Option.some.inj heq)).1
    obtain ⟨h1, h2⟩ := h.tip f hf
    omega
  | none =>
    rw [root, hf] at heq
    obtain ⟨header, hlook, hhash⟩ := Option.map_eq_some_iff.1 heq.symm
    have hh : header.height = b.height :=
      (Env.header_eq_of_hash_eq (a := ⟨header, b.body⟩) hinj hhash).1
    have := (h.stored 0 header hlook).2
    omega

lemma removed_height (hfork : t.ForkResolved env block removed)
    (hlinks : t.LinksTo env block) (hb : b ∈ t.pendingSet) (hmem : env.hash b ∈ removed) :
    b.height = block.height := by
  obtain ⟨b', hb', hhash, hparent, -⟩ := hfork.siblings _ hmem
  obtain rfl := h.eq_of_hash_eq hb' hb hhash
  exact LinkedChain.height_eq_of_links (fun _ _ e => (Env.header_eq_of_hash_eq hinj e).1)
    (fun _ hp => h.ne_root hinj hp) (h.chain.linked b' hb) hlinks hparent

lemma drop (hfork : t.ForkResolved env block removed)
    (hlinks : t.LinksTo env block) : (t.drop removed).WellFormed env where
  keyed := (h.placed.drop removed).keyed
  chain := by
    refine h.chain.subset (fun b hb => (h.mem_pendingSet_drop.1 hb).1) ?_
    intro b hb hnot x hx
    have hmem : env.hash b ∈ removed := by
      by_contra hout
      exact hnot (h.mem_pendingSet_drop.2 ⟨hb, hout⟩)
    rw [h.removed_height hinj hfork hlinks hb hmem]
    exact hfork.longest (List.ne_nil_of_mem hmem) x hx
  committed := h.committed
  tip := h.tip
  genesis := h.genesis
  stored := h.stored
  rootStored := h.rootStored

lemma linksTo_drop (hfork : t.ForkResolved env block removed)
    (hlinks : t.LinksTo env block) : (t.drop removed).LinksTo env block := by
  rcases hlinks with ⟨p, hp, hpar, hheight⟩ | hroot
  · -- the parent is one below the candidate, so it is none of the removed siblings
    refine .inl ⟨p, h.mem_pendingSet_drop.2 ⟨hp, fun hmem => ?_⟩, hpar, hheight⟩
    have := h.removed_height hinj hfork (.inl ⟨p, hp, hpar, hheight⟩) hp hmem
    omega
  · exact .inr hroot

lemma addPending (hlinks : t.LinksTo env block)
    (hfree : ∀ b ∈ t.pendingSet, b.height = block.height → env.hash b = env.hash block) :
    (t.addPending env block).WellFormed env where
  keyed := AList.forall_lookup_insert h.keyed rfl
  chain := by
    refine h.chain.insert (fun _ _ e => (Env.header_eq_of_hash_eq hinj e).1) hlinks hfree
      (fun b hb => ?_) (h.mem_pendingSet_addPending.2 (.inl rfl)) (fun b hb => ?_)
    · exact (h.mem_pendingSet_addPending.1 hb).imp id And.left
    · by_cases hh : env.hash b = env.hash block
      · exact .inr hh
      · exact .inl (h.mem_pendingSet_addPending.2 (.inr ⟨hb, hh⟩))
  committed := h.committed
  tip := h.tip
  genesis := h.genesis
  stored := h.stored
  rootStored := h.rootStored

lemma mem_pendingSet_finalize :
    b ∈ (t.finalize env block).pendingSet ↔ b ∈ t.pendingSet ∧ block.height < b.height := by
  rw [Keyed.mem_pendingSet (h.placed.finalize block).keyed, lookup_finalize, h.mem_pendingSet]
  split_ifs with hhash
  · have := (Env.header_eq_of_hash_eq hinj hhash).1
    simp only [false_iff]
    omega
  · rw [Option.filter_eq_some_iff, decide_eq_true_eq]

lemma finalize (hblock : block ∈ t.pendingSet) : (t.finalize env block).WellFormed env where
  keyed := (h.placed.finalize block).keyed
  chain := h.chain.cut hblock fun _ => h.mem_pendingSet_finalize hinj
  committed := rfl
  tip f hf := by
    cases hf
    exact ⟨rfl, rfl⟩
  genesis hf := by cases hf
  stored := by
    have habove : t.height < block.height := h.chain.above block hblock
    refine AList.forall_lookup_insert (fun k header hk => ?_) ⟨le_refl _, rfl⟩
    obtain ⟨hle, hheight⟩ := h.stored k header hk
    exact ⟨le_trans hle habove.le, hheight⟩
  rootStored header hk := by
    rw [BlockState.finalize, AList.lookup_insert] at hk
    obtain rfl := Option.some.inj hk
    rfl

end WellFormed

end BlockState

namespace Consensus

variable {env : Env} {s : Consensus}

/-! ### Steps of the consensus state -/

/-- A proposal whose parent has been checked is linked to the pending chain. -/
lemma ParentChecked.linksTo {block parent : Block} (h : ParentChecked env s block parent)
    (hwf : s.blocks.WellFormed env) (hheight : block.height < u64Max) :
    s.blocks.LinksTo env block := by
  have hsucc : block.height = parent.height + 1 := by
    have := h.height
    rw [satAdd64] at this
    omega
  have hadv := h.advances
  rcases resolveParentBlock_ok h.resolved with hfind | ⟨-, -, hstored⟩
  · unfold find at hfind
    rw [hwf.committed] at hfind
    split at hfind
    · rename_i p hp
      cases hfind
      exact .inl ⟨parent, AList.mem_values.2 ⟨_, hp⟩, h.link.symm, hsucc⟩
    · split at hfind
      · rename_i hnone
        simp at hnone
      · split at hfind
        · rename_i f hf
          split at hfind
          · rename_i heq
            cases hfind
            obtain ⟨h1, h2⟩ := hwf.tip _ hf
            refine .inr ⟨?_, by simp_all⟩
            rw [root, hf]
            exact congrArg some heq.symm
          · cases hfind
        · cases hfind
  -- the parent is a stored header, at the finalized height
  · obtain ⟨hle, hh⟩ := hwf.stored _ _ hstored
    have hheader : parent.header.height = parent.height := rfl
    have hbase : block.height - 1 = s.blocks.height := by
      have : s.blocks.height < block.height := hadv
      omega
    rw [hbase] at hstored
    refine .inr ⟨?_, by omega⟩
    rw [hwf.rootStored _ hstored, h.link]
    rfl

lemma wellFormed_proposal (hinj : Function.Injective env.hashHeader)
    (hwf : s.blocks.WellFormed env) (now : ℕ) {block : Block} (hheight : block.height < u64Max) :
    (s.processBlockProposal env now block).2.blocks.WellFormed env := by
  rcases @processBlockProposal_spec env s now block with ⟨-, heq⟩ | ⟨parent, removed, heff⟩
  · rw [heq]
    exact hwf
  · have hlinks := heff.parent.linksTo hwf hheight
    have hdrop := hwf.drop hinj heff.fork hlinks
    cases hres : (s.processBlockProposal env now block).1 with
    | error e =>
      rw [heff.blocks.1 e hres]
      exact hdrop
    | ok _ =>
      obtain ⟨heq, hall⟩ := heff.blocks.2 hres
      rw [heq]
      refine hdrop.addPending hinj (hwf.linksTo_drop hinj heff.fork hlinks) fun b hb hh => ?_
      -- a pending block of the same height is a sibling, and siblings have been removed
      obtain ⟨hbS, hnot⟩ := hwf.mem_pendingSet_drop.1 hb
      by_contra hne
      exact hnot (hall b hbS
        (hwf.chain.parent_eq_of_links (hwf.chain.linked b hbS) hlinks hh) hne)

end Consensus

end Sxiaum
