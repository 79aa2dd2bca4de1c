import Sxiaum.Client.HeaderSafety
import Sxiaum.Client.NanoClient
import Sxiaum.Consensus.Agreement

/-!
# Finality of accepted headers

What a header that a client accepts has to do with the chain. A header is final if a quorum has
signed it in the Commit phase, and then no other header of its height is. The clients take the
votes of any one phase for a header, and the light client also signatures of the header's hash,
so that an accepted header is final only if the votes shown to the client are Commit votes.
-/

namespace Sxiaum.Clients

open LightClient Nano

/-! ### Accepted headers -/

/-- A quorum of a set has signed the header in the Commit phase of a view. -/
def CommitSigned (o : LightOracles) (Signed : ℕ → Hash → Prop) (validatorSet : List Validator)
    (header : BlockHeader) (view : ℕ) : Prop :=
  ∃ hash, o.checks.headerHash header = .ok hash ∧
    QuorumHas validatorSet fun v => Signed v.pubkey (o.hotstuffVoteDigest v.address hash view 2)

section Final

variable {o : LightOracles} {Signed : ℕ → Hash → Prop} {kind : ClientKind}
  {validatorSet : List Validator} {header : BlockHeader} {signatures : List (Address × ℕ)}
  {hotstuffViewPhase : Option (ℕ × ℕ)} {view : ℕ}

end Final

/-! ### Finality on the network -/

section Network

variable {o : LightOracles} {Signed : ℕ → Hash → Prop} {C : Committee} {env : Env}
  {net : Network} {validatorSet : List Validator} {header header' : BlockHeader} {view view' : ℕ}

lemma powerOf_perm {vs ws : List Validator} (hperm : vs.Perm ws)
    (hnodup : (ws.map Validator.address).Nodup) : powerOf vs = powerOf ws := by
  have hnodup' : (vs.map Validator.address).Nodup := (hperm.map _).nodup_iff.2 hnodup
  funext a
  have hfind : vs.find? (·.address = a) = ws.find? (·.address = a) := by
    apply Option.ext
    intro v
    rw [find?_address_eq_some hnodup', find?_address_eq_some hnodup, hperm.mem_iff]
  rw [powerOf, powerOf, hfind]

def HasSet (C : Committee) (validatorSet : List Validator) : Prop :=
  (activeOf validatorSet).Perm C.set.activeValidators

/-- The honest validators that have signed the Commit vote for a header in a view have cast it in
the protocol. -/
def HonestlyCast (o : LightOracles) (Signed : ℕ → Hash → Prop) (C : Committee)
    (signed : List VoteMessage) (header : BlockHeader) (view : ℕ) : Prop :=
  ∀ hash, o.checks.headerHash header = .ok hash → ∀ v ∈ C.set.activeValidators,
    v.address ∈ C.honest → Signed v.pubkey (o.hotstuffVoteDigest v.address hash view 2) →
      ⟨v.address, hash, view, .commit⟩ ∈ signed

lemma CommitSigned.cast (h : CommitSigned o Signed validatorSet header view)
    (hset : HasSet C validatorSet) (hcast : HonestlyCast o Signed C net.signed header view) :
    ∃ hash signers, o.checks.headerHash header = .ok hash ∧
      Quorum.IsQuorum C.set.activePower C.set.activeAddresses signers ∧
      ∀ a ∈ signers, a ∈ C.honest → ⟨a, hash, view, .commit⟩ ∈ net.signed := by
  obtain ⟨hash, hhash, signers, hquorum, hsigned⟩ := h
  have haddresses : activeAddressesOf validatorSet = C.set.activeAddresses :=
    List.toFinset_eq_of_perm _ _ (hset.map _)
  rw [powerOf_perm hset C.keyed.nodup, haddresses] at hquorum
  refine ⟨hash, signers, hhash, hquorum, fun a ha hhonest => ?_⟩
  obtain ⟨v, hv, rfl, hdigest⟩ := hsigned a ha
  exact hcast hash hhash v (hset.mem_iff.1 hv) hhonest hdigest

end Network

end Sxiaum.Clients
