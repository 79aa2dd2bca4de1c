import Sxiaum.BlockValidation
import Sxiaum.Consensus.CertificateQuorum

/-!
# Counting votes on a client

The nano client and the light client check a validator set and the signatures under a header
with the same two loops, each with its own messages: the loop over the active validators adds
up their voting power (`validate_and_tally_stake`, `validate_validator_set`), the loop over
the signatures adds up the power of the signers. The sums are `u128` and checked.
-/

namespace Sxiaum

open Guards

/-- `u128::MAX`. -/
def u128Max : ℕ := 0xffffffffffffffffffffffffffffffff

def hashBytes (h : Hash) : List UInt8 := (leBytes 32 h).reverse

/-- What the clients take from other crates. -/
structure ClientOracles where
  checks : BlockChecks
  domainHash : String → List UInt8 → Hash
  /-- `BlockBody::compute_validator_root`. -/
  computeValidatorRoot : List Validator → Except String Hash

namespace ClientOracles

variable (o : ClientOracles)

def verify (publicKey : ℕ) (message : Hash) (signature : ℕ) : Bool :=
  match o.checks.verifyingKey publicKey, o.checks.verifyStrict publicKey message signature with
  | .ok _, .ok _ => true
  | _, _ => false

/-- The digest that a vote signs; both crates carry a copy. -/
def hotstuffVoteDigest (validator : Address) (blockHash : Hash) (view phaseTag : ℕ) : Hash :=
  o.domainHash "SXIAUM_CONSENSUS"
    (hashBytes validator ++ hashBytes blockHash ++ leBytes 8 view ++ [UInt8.ofNat phaseTag])

/-- Only the holder of a key makes signatures that verify under it. -/
def Unforgeable (Signed : ℕ → Hash → Prop) : Prop :=
  ∀ publicKey message signature, o.verify publicKey message signature = true →
    Signed publicKey message

end ClientOracles

/-! ### Voting power of a set -/

section Set

variable {ε : Type}

structure SetErrors (ε : Type) where
  zeroPower : Validator → ε
  addressMismatch : Validator → ε
  duplicate : Validator → ε
  overflow : ε

/-- The active validators have power and the addresses of their keys, no two share an address;
the result is their voting power. -/
def tallyActive (derive : ℕ → Address) (checkKey : Validator → Except ε Unit)
    (errors : SetErrors ε) : List Address → ℕ → List Validator → Except ε ℕ
  | _, total, [] => .ok total
  | seen, total, v :: rest =>
    if !v.isActive then tallyActive derive checkKey errors seen total rest
    else do
      bailIf (v.votingPower = 0) (errors.zeroPower v)
      bailIf (derive v.pubkey ≠ v.address) (errors.addressMismatch v)
      checkKey v
      bailIf (v.address ∈ seen) (errors.duplicate v)
      bailIf (u128Max < total + v.votingPower) errors.overflow
      tallyActive derive checkKey errors (v.address :: seen) (total + v.votingPower) rest

def activeOf (vs : List Validator) : List Validator := vs.filter Validator.isActive

variable {derive : ℕ → Address} {checkKey : Validator → Except ε Unit} {errors : SetErrors ε}

/-- What a set that has been tallied is like. -/
structure Tallied (derive : ℕ → Address) (vs : List Validator) (total : ℕ) : Prop where
  nodup : ((activeOf vs).map Validator.address).Nodup
  power : ∀ v ∈ activeOf vs, v.votingPower ≠ 0
  derived : ∀ v ∈ activeOf vs, derive v.pubkey = v.address
  sum : total = ((activeOf vs).map Validator.votingPower).sum
  bound : total ≤ u128Max

lemma tallyActive_ok {seen : List Address} {acc total : ℕ} {vs : List Validator}
    (hacc : acc ≤ u128Max)
    (h : tallyActive derive checkKey errors seen acc vs = .ok total) :
    Tallied derive vs (total - acc) ∧ acc ≤ total ∧ total ≤ u128Max ∧
      ∀ a ∈ (activeOf vs).map Validator.address, a ∉ seen := by
  induction vs generalizing seen acc with
  | nil =>
    obtain rfl : acc = total := Except.ok.inj h
    refine ⟨⟨List.nodup_nil, by simp [activeOf], by simp [activeOf], by simp [activeOf], ?_⟩,
      le_rfl, hacc, by simp [activeOf]⟩
    omega
  | cons v rest ih =>
    rw [tallyActive] at h
    split_ifs at h with hactive
    · have hskip : activeOf (v :: rest) = activeOf rest := by
        rw [activeOf, List.filter_cons_of_neg (by simpa using hactive), activeOf]
      obtain ⟨htallied, hle, hmax, hfresh⟩ := ih hacc h
      exact ⟨⟨hskip ▸ htallied.nodup, hskip ▸ htallied.power, hskip ▸ htallied.derived,
        hskip ▸ htallied.sum, htallied.bound⟩, hle, hmax, hskip ▸ hfresh⟩
    · have hkeep : activeOf (v :: rest) = v :: activeOf rest := by
        rw [activeOf, List.filter_cons_of_pos (by simpa using hactive), activeOf]
      simp only [bind_ok, exists_unit, bailIf_ok, not_not, not_lt] at h
      obtain ⟨hpower, hderive, -, hseen, hbound, h⟩ := h
      obtain ⟨htallied, hle, hmax, hfresh⟩ := ih hbound h
      -- an address that comes again is refused
      have hnew : v.address ∉ (activeOf rest).map Validator.address :=
        fun hmem => hfresh _ hmem List.mem_cons_self
      refine ⟨⟨?_, ?_, ?_, ?_, ?_⟩, ?_, hmax, ?_⟩
      · rw [hkeep, List.map_cons]
        exact List.nodup_cons.2 ⟨hnew, htallied.nodup⟩
      · rw [hkeep]
        exact List.forall_mem_cons.2 ⟨hpower, htallied.power⟩
      · rw [hkeep]
        exact List.forall_mem_cons.2 ⟨hderive, htallied.derived⟩
      · rw [hkeep, List.map_cons, List.sum_cons, ← htallied.sum]
        omega
      · omega
      · omega
      · rw [hkeep, List.map_cons]
        refine List.forall_mem_cons.2 ⟨hseen, fun a ha hmem => ?_⟩
        exact hfresh a ha (List.mem_cons_of_mem _ hmem)

lemma tallied_of_ok {vs : List Validator} {total : ℕ}
    (h : tallyActive derive checkKey errors [] 0 vs = .ok total) : Tallied derive vs total :=
  (tallyActive_ok (Nat.zero_le _) h).1

end Set

/-! ### Voting power of signers -/

section Signers

variable {ε : Type}

structure VoteErrors (ε : Type) where
  duplicate : Address → ε
  unknown : Address → ε
  invalid : Address → ε
  overflow : ε

/-- The signers are distinct and known and their signatures are valid; the result is their
voting power. -/
def tallyVotes (errors : VoteErrors ε) (find : Address → Option Validator)
    (valid : Validator → Address → ℕ → Bool) :
    List Address → ℕ → List (Address × ℕ) → Except ε ℕ
  | _, total, [] => .ok total
  | seen, total, (address, signature) :: rest => do
    bailIf (address ∈ seen) (errors.duplicate address)
    match find address with
    | none => .error (errors.unknown address)
    | some validator => do
      bailIf (valid validator address signature = false) (errors.invalid address)
      bailIf (u128Max < total + validator.votingPower) errors.overflow
      tallyVotes errors find valid (address :: seen) (total + validator.votingPower) rest

variable {errors : VoteErrors ε} {find : Address → Option Validator}
  {valid : Validator → Address → ℕ → Bool}

lemma tallyVotes_ok {seen : List Address} {acc total : ℕ} {votes : List (Address × ℕ)}
    (h : tallyVotes errors find valid seen acc votes = .ok total) :
    (votes.map Prod.fst).Nodup ∧ (∀ a ∈ votes.map Prod.fst, a ∉ seen) ∧
      (∀ s ∈ votes, ∃ v, find s.1 = some v ∧ valid v s.1 s.2 = true) ∧
      total = acc + (votes.map fun s => ((find s.1).map Validator.votingPower).getD 0).sum := by
  induction votes generalizing seen acc with
  | nil =>
    obtain rfl : acc = total := Except.ok.inj h
    simp
  | cons s rest ih =>
    obtain ⟨address, signature⟩ := s
    simp only [tallyVotes, bind_ok, exists_unit, bailIf_ok] at h
    obtain ⟨hseen, h⟩ := h
    split at h
    · cases h
    · rename_i v hfind
      simp only [bind_ok, exists_unit, bailIf_ok, Bool.not_eq_false] at h
      obtain ⟨hvalid, -, h⟩ := h
      obtain ⟨hnodup, hfresh, hall, htotal⟩ := ih h
      refine ⟨?_, ?_, ?_, ?_⟩
      · exact List.nodup_cons.2 ⟨fun hmem => hfresh _ hmem List.mem_cons_self, hnodup⟩
      · exact List.forall_mem_cons.2
          ⟨hseen, fun a ha hmem => hfresh a ha (List.mem_cons_of_mem _ hmem)⟩
      · exact List.forall_mem_cons.2 ⟨⟨v, hfind, hvalid⟩, hall⟩
      · rw [List.map_cons, List.sum_cons, hfind, Option.map_some, Option.getD_some, htotal]
        omega

end Signers

/-! ### Quorums -/

def activeAddressesOf (vs : List Validator) : Finset Address :=
  ((activeOf vs).map Validator.address).toFinset

/-- A quorum of the active validators of a list has property `p`. -/
def QuorumHas (vs : List Validator) (p : Validator → Prop) : Prop :=
  ∃ signers : Finset Address,
    Quorum.IsQuorum (powerOf (activeOf vs)) (activeAddressesOf vs) signers ∧
      ∀ a ∈ signers, ∃ v ∈ activeOf vs, v.address = a ∧ p v

lemma QuorumHas.mono {vs : List Validator} {p q : Validator → Prop} (h : QuorumHas vs p)
    (himp : ∀ v ∈ activeOf vs, p v → q v) : QuorumHas vs q := by
  obtain ⟨signers, hquorum, hall⟩ := h
  refine ⟨signers, hquorum, fun a ha => ?_⟩
  obtain ⟨v, hv, haddress, hp⟩ := hall a ha
  exact ⟨v, hv, haddress, himp v hv hp⟩

lemma quorumHas_of_tallies {ε : Type} {derive : ℕ → Address} {vs : List Validator}
    {total power : ℕ} (hset : Tallied derive vs total) {errors : VoteErrors ε}
    {find : Address → Option Validator}
    (hfind : ∀ a, find a = (activeOf vs).find? (·.address = a))
    {valid : Validator → Address → ℕ → Bool} {votes : List (Address × ℕ)}
    (hvotes : tallyVotes errors find valid [] 0 votes = .ok power)
    (hheavy : 2 * total < 3 * power) :
    QuorumHas vs fun v => ∃ signature, (v.address, signature) ∈ votes ∧
      valid v v.address signature = true := by
  obtain ⟨hnodup, -, hall, hpower⟩ := tallyVotes_ok hvotes
  have hfound (s : Address × ℕ) (hs : s ∈ votes) :
      ∃ v ∈ activeOf vs, v.address = s.1 ∧ valid v s.1 s.2 = true := by
    obtain ⟨v, hv, hvalid⟩ := hall s hs
    rw [hfind] at hv
    exact ⟨v, List.mem_of_find?_eq_some hv, by simpa using List.find?_some hv, hvalid⟩
  refine ⟨(votes.map Prod.fst).toFinset, ⟨?_, ?_⟩, ?_⟩
  · intro a ha
    obtain ⟨s, hs, rfl⟩ := List.mem_map.1 (List.mem_toFinset.1 ha)
    obtain ⟨v, hv, haddress, -⟩ := hfound s hs
    exact List.mem_toFinset.2 (haddress ▸ List.mem_map_of_mem hv)
  · have hsigners : ∑ a ∈ (votes.map Prod.fst).toFinset, powerOf (activeOf vs) a = power := by
      rw [List.sum_toFinset _ hnodup, List.map_map, hpower, Nat.zero_add]
      refine congrArg List.sum (List.map_congr_left fun s _ => ?_)
      simp [powerOf, hfind]
    rw [activeAddressesOf, sum_powerOf hset.nodup, ← hset.sum, hsigners]
    exact hheavy
  · intro a ha
    obtain ⟨s, hs, rfl⟩ := List.mem_map.1 (List.mem_toFinset.1 ha)
    obtain ⟨v, hv, haddress, hvalid⟩ := hfound s hs
    refine ⟨v, hv, haddress, s.2, ?_, ?_⟩
    · rwa [haddress]
    · rwa [haddress]

end Sxiaum
