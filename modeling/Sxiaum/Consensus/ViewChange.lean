import Sxiaum.Consensus.CertificateQuorum

/-!
# View change certificates

`ViewChangeCertificate::verify` (`hotstuff/vote.rs`) counts timeout votes of different validators
and checks their signatures. It compares neither their view with the one of the certificate, nor
looks at the status and the voting power of the voters.
-/

namespace Sxiaum

/-- What a timeout vote signs; of the certificate it carries, the block and the view. -/
structure TimeoutMessage where
  validator : Address
  view : ℕ
  highestQc : Option (Hash × ℕ)
deriving DecidableEq, Repr

structure TimeoutVote where
  validator : Address
  view : ℕ
  highestQc : Option QuorumCertificate
  signature : ℕ

def TimeoutVote.signingMessage (vote : TimeoutVote) : TimeoutMessage :=
  ⟨vote.validator, vote.view, vote.highestQc.map fun qc => (qc.blockHash, qc.view)⟩

structure ViewChangeCertificate where
  view : ℕ
  newView : ℕ
  timeoutVotes : List TimeoutVote
  aggregatedSignature : Option (List UInt8)

namespace ViewChangeCertificate

variable (verifySignature : ℕ → TimeoutMessage → ℕ → Except String Bool) (vs : List Validator)

/-- The loop of `verify`; `seen` is the set of voters met so far. A signature that cannot be checked
ends it with an error. -/
def verifyVotes : List Address → List TimeoutVote → Except String Bool
  | _, [] => .ok true
  | seen, vote :: rest =>
    if vote.validator ∈ seen then .ok false
    else
      match vs.find? (·.address = vote.validator) with
      | none => .ok false
      | some v =>
        match verifySignature v.pubkey vote.signingMessage vote.signature with
        | .error e => .error e
        | .ok false => .ok false
        | .ok true => verifyVotes (vote.validator :: seen) rest

def verify (threshold : ℕ) (cert : ViewChangeCertificate) : Except String Bool :=
  if cert.timeoutVotes.length < threshold then .ok false
  else verifyVotes verifySignature vs [] cert.timeoutVotes

/-- A validator of the list is the voter and has signed the vote. -/
def SignedBy (vote : TimeoutVote) (v : Validator) : Prop :=
  vs.find? (·.address = vote.validator) = some v ∧
    verifySignature v.pubkey vote.signingMessage vote.signature = .ok true

/-- The votes justify the certificate: they are for its view and come from different active
validators that have signed them and hold more than two thirds of the active voting power. -/
structure Justified (cert : ViewChangeCertificate) : Prop where
  view : ∀ vote ∈ cert.timeoutVotes, vote.view = cert.view
  distinct : (cert.timeoutVotes.map TimeoutVote.validator).Nodup
  voters : ∀ vote ∈ cert.timeoutVotes, ∃ v, SignedBy verifySignature vs vote v ∧ v.isActive = true
  power : 2 * ((vs.filter Validator.isActive).map Validator.votingPower).sum <
    3 * (cert.timeoutVotes.map fun vote => powerOf vs vote.validator).sum

variable {verifySignature vs} {cert : ViewChangeCertificate} {threshold : ℕ}

lemma signed_of_verifyVotes {seen : List Address} {votes : List TimeoutVote}
    (h : verifyVotes verifySignature vs seen votes = .ok true) :
    (votes.map TimeoutVote.validator).Nodup ∧ ∀ vote ∈ votes,
      vote.validator ∉ seen ∧ ∃ v, SignedBy verifySignature vs vote v := by
  induction votes generalizing seen with
  | nil => simp
  | cons vote rest ih =>
    rw [verifyVotes] at h
    split_ifs at h with hseen
    · cases h
    split at h
    · cases h
    · rename_i v hfind
      split at h
      · cases h
      · cases h
      · rename_i hsigned
        obtain ⟨hnodup, hrest⟩ := ih h
        refine ⟨List.nodup_cons.2 ⟨fun hmem => ?_, hnodup⟩,
          List.forall_mem_cons.2 ⟨⟨hseen, v, hfind, hsigned⟩, fun w hw => ?_⟩⟩
        · obtain ⟨w, hw, heq⟩ := List.mem_map.1 hmem
          exact (hrest w hw).1 (heq ▸ List.mem_cons_self)
        · exact (hrest w hw).imp_left fun hnot hmem => hnot (List.mem_cons_of_mem _ hmem)

/-- The votes of a certificate that is accepted, at least the threshold of them, are signed by
different validators. They justify it exactly if they are for its view, the voters are active and
their power is enough. -/
theorem justified_iff (h : cert.verify verifySignature vs threshold = .ok true) :
    threshold ≤ cert.timeoutVotes.length ∧ (Justified verifySignature vs cert ↔
      (∀ vote ∈ cert.timeoutVotes, vote.view = cert.view ∧
        ∀ v ∈ vs.find? (·.address = vote.validator), v.isActive = true) ∧
      2 * ((vs.filter Validator.isActive).map Validator.votingPower).sum <
        3 * (cert.timeoutVotes.map fun vote => powerOf vs vote.validator).sum) := by
  rw [verify] at h
  split_ifs at h with hfew
  · cases h
  obtain ⟨hnodup, hsigned⟩ := signed_of_verifyVotes h
  refine ⟨not_lt.1 hfew, fun hj => ⟨fun vote hvote => ⟨hj.view vote hvote, ?_⟩, hj.power⟩, ?_⟩
  · intro v hv
    obtain ⟨w, ⟨hfind, -⟩, hactive⟩ := hj.voters vote hvote
    exact Option.some.inj (hfind.symm.trans hv) ▸ hactive
  · rintro ⟨hvotes, hpower⟩
    refine ⟨fun vote hvote => (hvotes vote hvote).1, hnodup, fun vote hvote => ?_, hpower⟩
    obtain ⟨-, v, hv⟩ := hsigned vote hvote
    exact ⟨v, hv, (hvotes vote hvote).2 v hv.1⟩

/-! ### Timeouts of another view -/

def sampleCheck (key : ℕ) (_ : TimeoutMessage) (signature : ℕ) : Except String Bool :=
  .ok (signature = key)

def sampleTimeouts (view : ℕ) (voters : List Address) : ViewChangeCertificate :=
  ⟨5, 6, voters.map fun a => ⟨a, view, none, a⟩, none⟩

def sampleVoters : List Validator :=
  [.sample 1 1, .sample 2 1, .sample 3 1, { Validator.sample 4 1 with status := .inactive }]

theorem justified_sample : Justified sampleCheck sampleVoters (sampleTimeouts 5 [1, 2, 3]) :=
  (@justified_iff sampleCheck sampleVoters (sampleTimeouts 5 [1, 2, 3]) 3 rfl).2.2
    (by decide +kernel)

/-- Votes of another view are accepted, as is the vote of an inactive validator. -/
theorem unjustified_accepted :
    (verify sampleCheck sampleVoters 3 (sampleTimeouts 3 [1, 2, 3]) = .ok true ∧
        ∀ vote ∈ (sampleTimeouts 3 [1, 2, 3]).timeoutVotes, vote.view ≠ 5) ∧
      verify sampleCheck sampleVoters 3 (sampleTimeouts 5 [1, 2, 4]) = .ok true ∧
        ∀ v ∈ sampleVoters.find? (·.address = 4), v.isActive = false :=
  ⟨⟨rfl, by decide +kernel⟩, rfl, by decide +kernel⟩

end ViewChangeCertificate

end Sxiaum
