import Sxiaum.Consensus.Network

/-!
# Agreement

Two honest replicas never finalize different blocks at one height, as long as no sum of
voting powers saturates. An honest signer of both Commit certificates would have accepted
PreCommit certificates of both blocks, and a precommitted block holds its height. Where the
sums saturate, two certificates need not share an honest signer, and agreement is lost.
-/

namespace Sxiaum

namespace Consensus

variable {env : Env} {set : ValidatorSet} {s : Consensus}

/-- A replica that starts over a storage without votes and blocks, and then takes the fixed
validator set. -/
def Initial (env : Env) (set : ValidatorSet) (s : Consensus) : Prop :=
  ∃ st vs, GenesisOnly st ∧ st.voteRows = ∅ ∧
    s = (((new st).start env).2.updateValidatorSet env vs).2 ∧ s.validatorSet = set

lemma Initial.wellFormed (h : Initial env set s) : s.blocks.WellFormed env := by
  obtain ⟨st, vs, hst, -, rfl, -⟩ := h
  rw [blocks_updateValidatorSet]
  exact wellFormed_start hst

lemma Initial.voteCollector (h : Initial env set s) : s.voteCollector = .empty := by
  obtain ⟨st, vs, -, hrows, rfl, -⟩ := h
  have hscan : st.scanVotes = [] := by simp [ConsensusStorage.scanVotes, hrows]
  have hstart : ((new st).start env).2.voteCollector = .empty := by
    rcases start_new st with ⟨e, -, hstart⟩ | ⟨set, -, hstart⟩
    · rw [hstart]
      rfl
    · simp [hstart, restored, hscan]
  rw [← hstart]
  unfold updateValidatorSet
  split <;> rfl

end Consensus

namespace Network

variable {env : Env} {C : Committee} {net : Network}

/-- No two honest replicas have finalized different blocks at one height. -/
def Agreement (env : Env) (net : Network) : Prop :=
  ∀ e ∈ net.finalized, ∀ e' ∈ net.finalized, e.2.height = e'.2.height →
    env.hash e.2 = env.hash e'.2

instance : Decidable (Agreement env net) :=
  inferInstanceAs (Decidable (∀ _ ∈ _, ∀ _ ∈ _, _))

/-- What agreement rests on in every reachable state. -/
structure Safe (env : Env) (C : Committee) (net : Network) : Prop where
  set : ∀ n ∈ C.honest, (net.replica n).validatorSet = C.set
  chain : ∀ n ∈ C.honest, (net.replica n).blocks.WellFormed env
  collector : ∀ n ∈ C.honest, (net.replica n).voteCollector.SignedBy C.honest net.signed
  /-- Precommitted blocks hold their heights. -/
  held : ∀ n qc, (n, qc) ∈ net.accepted → qc.phase = .preCommit →
    ∃ b, env.hash b = qc.blockHash ∧ (net.replica n).blocks.Held env qc.blockHash b.height
  /-- At most one block is precommitted at each height of a replica. -/
  once : ∀ n qc qc', (n, qc) ∈ net.accepted → (n, qc') ∈ net.accepted →
    qc.phase = .preCommit → qc'.phase = .preCommit →
    ∀ b b', env.hash b = qc.blockHash → env.hash b' = qc'.blockHash → b.height = b'.height →
      qc.blockHash = qc'.blockHash
  /-- A Commit vote follows an accepted PreCommit certificate. -/
  commit : ∀ m ∈ net.signed, m.phase = .commit →
    ∃ qc, (m.validator, qc) ∈ net.accepted ∧ qc.phase = .preCommit ∧ qc.blockHash = m.blockHash
  /-- A finalized block has a Commit certificate with signed votes. -/
  finalized : ∀ n b, (n, b) ∈ net.finalized → ∃ qc, C.set.verifies env qc = true ∧
    ∀ a ∈ qc.validators, a ∈ C.honest → ⟨a, env.hash b, qc.view, .commit⟩ ∈ net.signed

lemma Safe.agreement (h : Safe env C net) (hno : C.set.NoOverflow) : Agreement env net := by
  rintro ⟨n, b⟩ hb ⟨n', b'⟩ hb' hheight
  obtain ⟨qc, hqc, hsigned⟩ := h.finalized n b hb
  obtain ⟨qc', hqc', hsigned'⟩ := h.finalized n' b' hb'
  obtain ⟨a, ha, ha', hhonest⟩ := C.exists_common_signer hno hqc hqc'
  obtain ⟨pre, hpre, hphase, hhash⟩ := h.commit _ (hsigned a ha hhonest) rfl
  obtain ⟨pre', hpre', hphase', hhash'⟩ := h.commit _ (hsigned' a ha' hhonest) rfl
  have heq := h.once a pre pre' hpre hpre' hphase hphase' b b' hhash.symm hhash'.symm hheight
  rw [hhash, hhash'] at heq
  exact heq

lemma safe_init {replica : Address → Consensus}
    (hinit : ∀ n ∈ C.honest, (replica n).Initial env C.set) : Safe env C (init replica) where
  set n hn := by
    obtain ⟨st, vs, -, -, -, hset⟩ := hinit n hn
    exact hset
  chain n hn := (hinit n hn).wellFormed
  collector n hn := by
    intro view hash phase votes hlookup
    rw [init, (hinit n hn).voteCollector] at hlookup
    simp [VoteCollector.empty] at hlookup
  held := by simp [init]
  once := by simp [init]
  commit := by simp [init]
  finalized := by simp [init]

lemma Safe.sign (h : Safe env C net) {m : VoteMessage} (hm : net.MaySign m) :
    Safe env C (net.step env (.sign m)) where
  set := h.set
  chain := h.chain
  collector n hn := (h.collector n hn).mono m
  held := h.held
  once := h.once
  commit m' hm' hphase := by
    rcases List.mem_cons.1 hm' with rfl | hm'
    · rw [MaySign, hphase] at hm
      obtain ⟨⟨n, qc⟩, hqc, rfl, hnext⟩ := hm
      refine ⟨qc, hqc, ?_⟩
      unfold Consensus.nextPhaseVote at hnext
      split at hnext
      · have hnext := congrArg VoteMessage.phase (Option.some.inj hnext)
        rw [hphase] at hnext
        cases hnext
      · rename_i hpre
        exact ⟨hpre, congrArg VoteMessage.blockHash (Option.some.inj hnext)⟩
      · cases hnext
    · exact h.commit m' hm' hphase
  finalized n b hb := by
    obtain ⟨qc, hqc, hsigned⟩ := h.finalized n b hb
    exact ⟨qc, hqc, fun a ha hhonest => List.mem_cons_of_mem _ (hsigned a ha hhonest)⟩

section deliver

variable {n : Address} {i : Consensus.Input}

lemma mem_accepted_deliver {k : Address} {qc : QuorumCertificate} :
    (k, qc) ∈ (net.step env (.deliver n i)).accepted ↔
      (k, qc) ∈ net.accepted ∨ k = n ∧ (net.replica n).acceptedBy env i = some qc := by
  simp only [step, List.mem_append, Option.mem_toList, Option.map_eq_some_iff,
    Prod.mk.injEq]
  refine or_congr_right ⟨?_, ?_⟩
  · rintro ⟨qc', h, rfl, rfl⟩
    exact ⟨rfl, h⟩
  · rintro ⟨rfl, h⟩
    exact ⟨qc, h, rfl, rfl⟩

lemma replica_deliver (P : Consensus → Prop) (h : ∀ k ∈ C.honest, P (net.replica k))
    (hstep : P ((net.replica n).step env i)) :
    ∀ k ∈ C.honest, P ((net.step env (.deliver n i)).replica k) := by
  intro k hk
  by_cases hkn : k = n
  · subst hkn
    simpa [step] using hstep
  · simpa [step, hkn] using h k hk

/-- A newly accepted PreCommit certificate and an earlier one of the same height name one
block. -/
lemma Safe.once_new (hinj : Function.Injective env.hashHeader) (h : Safe env C net)
    (hn : n ∈ C.honest) {qc qc' : QuorumCertificate} (hqc : (n, qc) ∈ net.accepted)
    (hqc' : (net.replica n).acceptedBy env i = some qc') (hphase : qc.phase = .preCommit)
    (hphase' : qc'.phase = .preCommit) {b b' : Block} (hb : env.hash b = qc.blockHash)
    (hb' : env.hash b' = qc'.blockHash) (hheight : b.height = b'.height) :
    qc.blockHash = qc'.blockHash := by
  have hwf := h.chain n hn
  obtain ⟨b₀, hb₀, hheld⟩ := h.held n qc hqc hphase
  obtain ⟨c, hc, -⟩ := Consensus.held_of_accepted hwf hqc' hphase'
  have hhash : env.hash c = qc'.blockHash := hwf.keyed _ c hc
  have h1 := (Env.header_eq_of_hash_eq hinj (hb.trans hb₀.symm)).1
  have h2 := (Env.header_eq_of_hash_eq hinj (hb'.trans hhash.symm)).1
  have hsame := hheld.eq_of_pending hwf (AList.mem_values.2 ⟨_, hc⟩) (by omega)
  rw [← hsame, hhash]

lemma Safe.deliver (hinj : Function.Injective env.hashHeader) (h : Safe env C net)
    (hn : n ∈ C.honest) (hauth : Authentic env C net.signed i)
    (hset : ((net.replica n).step env i).validatorSet = C.set) (hrange : i.InRange) :
    Safe env C (net.step env (.deliver n i)) := by
  have hwf := h.chain n hn
  obtain ⟨hwf', hfinal⟩ := Consensus.step_spec hinj hwf hrange
  obtain ⟨hcollector, hsigners⟩ := Consensus.signedBy_step (h.set n hn) (h.collector n hn) hauth
  have hmove := Consensus.move_step hinj hwf hrange
  constructor
  case set => exact replica_deliver (·.validatorSet = C.set) h.set hset
  case chain => exact replica_deliver (·.blocks.WellFormed env) h.chain hwf'
  case collector =>
    exact replica_deliver (·.voteCollector.SignedBy C.honest net.signed) h.collector hcollector
  case held =>
    intro k qc hmem hphase
    rcases mem_accepted_deliver.1 hmem with hmem | ⟨rfl, hnew⟩
    · obtain ⟨b, hb, hheld⟩ := h.held k qc hmem hphase
      refine ⟨b, hb, ?_⟩
      by_cases hkn : k = n
      · subst hkn
        simpa [step] using hmove.held hwf hinj hheld
      · simpa [step, hkn] using hheld
    -- the certificate is accepted in this very step
    · obtain ⟨b, hb, hheld⟩ := Consensus.held_of_accepted hwf hnew hphase
      exact ⟨b, hwf.keyed _ b hb, by simpa [step] using hheld⟩
  case once =>
    intro k qc qc' hmem hmem' hphase hphase' b b' hb hb' hheight
    rcases mem_accepted_deliver.1 hmem with hold | ⟨rfl, hnew⟩ <;>
      rcases mem_accepted_deliver.1 hmem' with hold' | ⟨hkn, hnew'⟩
    · exact h.once k qc qc' hold hold' hphase hphase' b b' hb hb' hheight
    · subst hkn
      exact h.once_new hinj hn hold hnew' hphase hphase' hb hb' hheight
    · exact (h.once_new hinj hn hold' hnew hphase' hphase hb' hb hheight.symm).symm
    · rw [Option.some.inj (hnew.symm.trans hnew')]
  case commit =>
    intro m hm hphase
    obtain ⟨qc, hqc, hpre⟩ := h.commit m hm hphase
    exact ⟨qc, mem_accepted_deliver.2 (.inl hqc), hpre⟩
  case finalized =>
    intro k b hmem
    simp only [step, List.mem_append, Option.mem_toList, Option.map_eq_some_iff,
      Prod.mk.injEq] at hmem
    rcases hmem with hold | ⟨b', hnew, rfl, rfl⟩
    · exact h.finalized k b hold
    · rcases hfinal with ⟨-, hsame⟩ | ⟨qc, hqc, c, hc, hblocks⟩
      · simp [Consensus.finalizedBy, hsame] at hnew
      -- the finalized block is that of the certificate
      · have hbc : c = b' := by
          unfold Consensus.finalizedBy at hnew
          split_ifs at hnew
          simpa [hblocks] using hnew
        subst hbc
        have hverified : C.set.verifies env qc = true := h.set n hn ▸ hc.verified
        have hhash : env.hash c = qc.blockHash := hwf.keyed _ c hc.pending
        refine ⟨qc, hverified, fun a ha hhonest => ?_⟩
        rw [hhash, ← hc.phase]
        exact hsigners qc hqc hverified a ha hhonest

end deliver

lemma Safe.step (hinj : Function.Injective env.hashHeader) (h : Safe env C net) {a : Action}
    (ha : Permitted env C net a) (hrange : Action.InRange a) : Safe env C (net.step env a) := by
  cases a with
  | deliver n i => exact h.deliver hinj ha.1 ha.2.1 ha.2.2 hrange
  | sign m => exact h.sign ha.2

lemma Safe.run (hinj : Function.Injective env.hashHeader) (h : Safe env C net)
    {actions : List Action} (hschedule : Schedule env C net actions)
    (hrange : ∀ a ∈ actions, Action.InRange a) : Safe env C (net.run env actions) := by
  induction actions generalizing net with
  | nil => exact h
  | cons a rest ih =>
    exact ih (h.step hinj hschedule.1 (hrange a List.mem_cons_self)) hschedule.2
      fun b hb => hrange b (List.mem_cons_of_mem _ hb)

/-- In every schedule of deliveries and signatures over replicas that start afresh, no two
honest replicas finalize different blocks at one height, if the active voting power fits in a
`u64` and proposed heights are below the largest `u64`. -/
theorem agreement_of_noOverflow (hinj : Function.Injective env.hashHeader)
    (hno : C.set.NoOverflow) {replica : Address → Consensus}
    (hinit : ∀ n ∈ C.honest, (replica n).Initial env C.set) {actions : List Action}
    (hschedule : Schedule env C (init replica) actions)
    (hrange : ∀ a ∈ actions, Action.InRange a) :
    Agreement env ((init replica).run env actions) :=
  ((safe_init hinit).run hinj hschedule hrange).agreement hno

def fairReplica : Consensus :=
  (((Consensus.new Consensus.sampleStorage).start .sample).2.updateValidatorSet .sample
    [.sample 1 1, .sample 2 1, .sample 3 1, .sample 4 1]).2

def fairCommittee : Committee where
  set := fairReplica.validatorSet
  honest := [1, 2, 3]
  keyed := by decide +kernel
  minority := by decide +kernel

/-- Validators 1, 2 and 4 take a block through a phase: replica 1 receives the certificate and
replica 2 the votes. -/
def fairPhase (block : Block) (phase : VotePhase) : List Action :=
  [.sign ⟨1, Env.sample.hash block, 0, phase⟩, .sign ⟨2, Env.sample.hash block, 0, phase⟩,
    .deliver 1 (.certificate (.sample block 0 phase [1, 2, 4]))] ++
  [1, 2, 4].map fun a => .deliver 2 (.vote ⟨a, Env.sample.hash block, 0, phase, 0, none, a⟩)

def fairRun : List Action :=
  [.deliver 1 (.proposal 0 (Consensus.sampleChain 1)),
    .deliver 2 (.proposal 0 (Consensus.sampleChain 1))] ++
  [.prepare, .preCommit, .commit].flatMap (fairPhase (Consensus.sampleChain 1))

instance : DecidablePred Action.InRange
  | .deliver _ i => inferInstanceAs (Decidable i.InRange)
  | .sign _ => inferInstanceAs (Decidable True)

/-- Both honest replicas finalize the block, and they agree. -/
theorem agreement_of_four :
    ((init fun _ => fairReplica).run .sample fairRun).finalized =
        [(1, Consensus.sampleChain 1), (2, Consensus.sampleChain 1)] ∧
      Agreement .sample ((init fun _ => fairReplica).run .sample fairRun) := by
  have hinit : fairReplica.Initial .sample fairCommittee.set :=
    ⟨Consensus.sampleStorage, _, Consensus.genesisOnly_sampleStorage, rfl, rfl, rfl⟩
  have hschedule : Schedule .sample fairCommittee (init fun _ => fairReplica) fairRun := by
    decide +kernel
  have hno : fairCommittee.set.NoOverflow := by decide +kernel
  exact ⟨by decide +kernel,
    agreement_of_noOverflow Env.sample_injective hno (fun _ _ => hinit) hschedule (by decide)⟩

/-! ### Saturating voting power -/

def overflowEnv : Env := { Env.sample with leaderRandom := fun _ _ => 0xfffffffffffffff0 }

/-- Two honest validators, 1 and 2, and three byzantine ones. The powers add up to `2 ^ 64 + 2`,
and the byzantine ones hold less than one third even of `2 ^ 64 - 1`. -/
def overflowValidators : List Validator :=
  [.sample 1 6148914691236517207, .sample 2 6148914691236517207, .sample 3 6148914691236517202,
    .sample 4 1, .sample 5 1]

def overflowReplica : Consensus :=
  (((Consensus.new Consensus.sampleStorage).start overflowEnv).2.updateValidatorSet overflowEnv
    overflowValidators).2

def overflowCommittee : Committee where
  set := overflowReplica.validatorSet
  honest := [1, 2]
  keyed := by decide +kernel
  minority := by decide +kernel

def splitBlock (gasLimit : ℕ) : Block :=
  let block := Block.sample (overflowEnv.hash (Consensus.sampleChain 0)) 1 3
  { block with header := { block.header with gasLimit := gasLimit } }

/-- One honest replica is led through the three phases of a block: each certificate carries its
own vote and those of the byzantine validators. -/
def splitHalf (n : Address) (block : Block) : List Action :=
  let signers := [3, 4, 5, n]
  [.deliver n (.proposal 0 block), .sign ⟨n, overflowEnv.hash block, 0, .prepare⟩,
    .deliver n (.certificate (.sample block 0 .prepare signers)),
    .sign ⟨n, overflowEnv.hash block, 0, .preCommit⟩,
    .deliver n (.certificate (.sample block 0 .preCommit signers)),
    .sign ⟨n, overflowEnv.hash block, 0, .commit⟩,
    .deliver n (.certificate (.sample block 0 .commit signers))]

def splitRun : List Action := splitHalf 1 (splitBlock 0) ++ splitHalf 2 (splitBlock 1)

/-- Every validator signs at most one vote in a view and phase. -/
def OneVote (signed : List VoteMessage) : Prop :=
  ∀ m ∈ signed, ∀ m' ∈ signed, m.validator = m'.validator → m.view = m'.view →
    m.phase = m'.phase → m = m'

instance (signed : List VoteMessage) : Decidable (OneVote signed) :=
  inferInstanceAs (Decidable (∀ _ ∈ _, ∀ _ ∈ _, _))

/-- Saturated sums let two honest replicas finalize different blocks at height 1. -/
theorem agreement_lost_by_saturation :
    overflowReplica.Initial overflowEnv overflowCommittee.set ∧
      Schedule overflowEnv overflowCommittee (init fun _ => overflowReplica) splitRun ∧
      OneVote ((init fun _ => overflowReplica).run overflowEnv splitRun).signed ∧
      ((init fun _ => overflowReplica).run overflowEnv splitRun).finalized =
        [(1, splitBlock 0), (2, splitBlock 1)] ∧
      ¬ Agreement overflowEnv ((init fun _ => overflowReplica).run overflowEnv splitRun) := by
  refine ⟨⟨Consensus.sampleStorage, overflowValidators, Consensus.genesisOnly_sampleStorage, rfl,
    rfl, rfl⟩, ?_, ?_, ?_, ?_⟩
  · decide +kernel
  · decide +kernel
  · decide +kernel
  · decide +kernel

end Network

end Sxiaum
