import Sxiaum.Consensus.Views
import Sxiaum.Node.Voting

/-!
# A node votes once in a view and phase

Within one life of a node its view counter never falls and `last_voted_view` guards the
Prepare votes; the votes of later phases follow the certificates the node accepts. A restart
forgets `last_voted_view`, and nothing in storage replaces it: only a stored view above every
view the node has voted in keeps a second Prepare vote from being sent.
-/

namespace Sxiaum

open Consensus

namespace Consensus

variable {env : Env} {s s' : Consensus}

lemma verifies_of_ok {qc : QuorumCertificate} {advanced : HotStuffPhase}
    (h : s.processQuorumCertificate env qc = (.ok advanced, s')) :
    s.validatorSet.verifies env qc = true := by
  cases hverifies : s.validatorSet.verifies env qc with
  | true => rfl
  | false => simp [processQuorumCertificate, hverifies] at h

/-- The certificate that a processed vote returns was handed over and verifies. -/
lemma certificateOf_of_processVote {vote : Vote} {qc : QuorumCertificate}
    (h : s.processVote env vote = (.ok (some qc), s')) :
    s.certificateOf env (.vote vote) = some qc ∧ s.validatorSet.verifies env qc = true := by
  have hset : (s.admitVote env vote).2.validatorSet = s.validatorSet := by
    obtain ⟨view, viewRow, collector, rows, heq⟩ := @admitVote_eq env s vote
    rw [heq]
  rcases hadmitted : s.admitVote env vote with ⟨e | _ | qc', s₁⟩
  · simp [processVote, hadmitted] at h
  · simp [processVote, hadmitted] at h
  · rcases hres : s₁.processQuorumCertificate env qc' with ⟨e | advanced, s₂⟩
    · simp [processVote, hadmitted, hres] at h
    · simp only [processVote, hadmitted, hres, Prod.mk.injEq, Except.ok.injEq,
        Option.some.injEq] at h
      obtain ⟨rfl, rfl⟩ := h
      rw [hadmitted] at hset
      exact ⟨by simp [certificateOf, hadmitted], hset ▸ verifies_of_ok hres⟩

lemma currentView_of_start {st : ConsensusStorage}
    (h : (new st).start env = (.ok (), s)) : s.currentView = st.currentViewRow.getD 0 := by
  rcases start_new st with ⟨e, -, hstart⟩ | ⟨set, -, hstart⟩
  · cases hstart.symm.trans h
  · cases hstart.symm.trans h
    rfl

end Consensus

namespace Node

variable {env : Env} {cfg : NodeConfig} {node : Node} {seen : List QuorumCertificate}

/-! ### The property and its condition -/

/-- No two votes of one view and phase name different blocks. -/
def OneBlock (sent : List VoteMessage) : Prop :=
  ∀ m ∈ sent, ∀ m' ∈ sent, m.view = m'.view → m.phase = m'.phase → m.blockHash = m'.blockHash

instance (sent : List VoteMessage) : Decidable (OneBlock sent) :=
  inferInstanceAs (Decidable (∀ _ ∈ _, ∀ _ ∈ _, _))

/-- The certificate that a task hands to consensus, if it verifies there. -/
def Task.certificateOf (env : Env) (s : Consensus) (task : Task) : Option QuorumCertificate :=
  (match task with
    | .certificate qc => some qc
    | .voteLoop _ v | .ownVote v => s.certificateOf env (.vote v)
    | _ => none).filter (s.validatorSet.verifies env)

/-- The certificate that a move hands to consensus, if it verifies there. -/
def certificateOf (env : Env) (node : Node) (move : Move) : Option QuorumCertificate :=
  (node.next move).bind fun run => run.1.certificateOf env node.consensus

/-- Certificates of one view and phase name one block. -/
def Compatible (qc qc' : QuorumCertificate) : Prop :=
  qc.view = qc'.view → qc.phase = qc'.phase → qc.blockHash = qc'.blockHash

instance (qc qc' : QuorumCertificate) : Decidable (Compatible qc qc') :=
  inferInstanceAs (Decidable (_ → _ → _))

/-- The view stored for a restart is above every view with a Prepare vote. -/
structure RowAhead (sent : List VoteMessage) (storage : ConsensusStorage) : Prop where
  above : ∀ m ∈ sent, m.phase = .prepare → m.view < storage.currentViewRow.getD 0
  bound : storage.currentViewRow.getD 0 ≤ u64Max

instance (sent : List VoteMessage) (storage : ConsensusStorage) :
    Decidable (RowAhead sent storage) :=
  decidable_of_iff ((∀ m ∈ sent, m.phase = .prepare → m.view < storage.currentViewRow.getD 0) ∧
    storage.currentViewRow.getD 0 ≤ u64Max) ⟨fun h => ⟨h.1, h.2⟩, fun h => ⟨h.above, h.bound⟩⟩

/-- A crash leaves a stored view ahead of the votes. -/
def SafeCrash (sent : List VoteMessage) : Move → Prop
  | .crash storage => RowAhead sent storage
  | .event _ | .proceed => True

instance (sent : List VoteMessage) : DecidablePred (SafeCrash sent)
  | .crash storage => inferInstanceAs (Decidable (RowAhead sent storage))
  | .event _ | .proceed => inferInstanceAs (Decidable True)

/-- Every crash leaves a stored view ahead of the votes, and no certificate conflicts with one
that was handed to consensus before; `seen` holds those. -/
def Careful (env : Env) (cfg : NodeConfig) (node : Node) (seen : List QuorumCertificate) :
    List Move → Prop
  | [] => True
  | move :: rest =>
    SafeCrash node.sent move ∧
      (∀ qc ∈ node.certificateOf env move, ∀ qc' ∈ seen, Compatible qc qc') ∧
      Careful env cfg (node.step env cfg move) ((node.certificateOf env move).toList ++ seen) rest

instance decidableCareful (node : Node) (seen : List QuorumCertificate) :
    (moves : List Move) → Decidable (Careful env cfg node seen moves)
  | [] => inferInstanceAs (Decidable True)
  | move :: rest =>
    have := decidableCareful (node.step env cfg move)
      ((node.certificateOf env move).toList ++ seen) rest
    inferInstanceAs (Decidable (SafeCrash node.sent move ∧ (∀ _ ∈ _, ∀ _ ∈ _, _) ∧ _))

/-! ### The invariant -/

/-- The message is the vote that follows one of the certificates. -/
def FollowsFrom (cfg : NodeConfig) (seen : List QuorumCertificate) (m : VoteMessage) : Prop :=
  ∃ qc ∈ seen, Consensus.nextPhaseVote cfg.validatorAddress qc = some m

lemma FollowsFrom.mono {m : VoteMessage} (h : FollowsFrom cfg seen m)
    (new : List QuorumCertificate) : FollowsFrom cfg (new ++ seen) m := by
  obtain ⟨qc, hqc, hnext⟩ := h
  exact ⟨qc, List.mem_append_right _ hqc, hnext⟩

lemma FollowsFrom.phase_ne {m : VoteMessage} (h : FollowsFrom cfg seen m) : m.phase ≠ .prepare := by
  obtain ⟨qc, -, hnext⟩ := h
  unfold nextPhaseVote at hnext
  split at hnext <;> cases hnext <;> simp

/-- The votes that a task still has to send. -/
def Task.votes : Task → List Vote
  | .voteLoop generated _ => generated
  | .ownVote v | .broadcast v => [v]
  | _ => []

/-- Every vote that the tasks still have to send follows from one of the certificates. -/
def Accounted (cfg : NodeConfig) (seen : List QuorumCertificate) (tasks : List Task) : Prop :=
  ∀ t ∈ tasks, ∀ v ∈ t.votes, FollowsFrom cfg seen v.signingMessage

/-- What holds between the moves of a careful node. -/
structure Guarded (cfg : NodeConfig) (node : Node) (seen : List QuorumCertificate) : Prop where
  bound : node.running = true → node.consensus.currentView ≤ u64Max
  /-- A Prepare vote of the current view is the one that the guard remembers. -/
  prepared : node.running = true → ∀ m ∈ node.sent, m.phase = .prepare →
    m.view ≤ node.consensus.currentView ∧
      (m.view = node.consensus.currentView → node.lastVotedView = some m.view)
  later : ∀ m ∈ node.sent, m.phase ≠ .prepare → FollowsFrom cfg seen m
  tasks : ∀ t ∈ node.tasks, ∀ v ∈ t.votes, FollowsFrom cfg seen v.signingMessage
  oneBlock : OneBlock node.sent
  compatible : ∀ qc ∈ seen, ∀ qc' ∈ seen, Compatible qc qc'

namespace Guarded

section

variable (h : Guarded cfg node seen)

include h

lemma extend (new : Option QuorumCertificate) (hnew : ∀ qc ∈ new, ∀ qc' ∈ seen, Compatible qc qc') :
    Guarded cfg node (new.toList ++ seen) where
  bound := h.bound
  prepared := h.prepared
  later m hm hphase := (h.later m hm hphase).mono _
  tasks t ht v hv := (h.tasks t ht v hv).mono _
  oneBlock := h.oneBlock
  compatible qc hqc qc' hqc' := by
    rcases List.mem_append.1 hqc with hqc | hqc <;> rcases List.mem_append.1 hqc' with hqc' | hqc'
    · rw [Option.mem_toList] at hqc hqc'
      obtain rfl := Option.some.inj (hqc.symm.trans hqc')
      exact fun _ _ => rfl
    · exact hnew qc (Option.mem_toList.1 hqc) qc' hqc'
    · intro hview hphase
      exact (hnew qc' (Option.mem_toList.1 hqc') qc hqc hview.symm hphase.symm).symm
    · exact h.compatible qc hqc qc' hqc'

/-- A task that only moves consensus on and leaves tasks with accounted votes. -/
lemma advance {node' : Node} (hsent : node'.sent = node.sent)
    (hvoted : node'.lastVotedView = node.lastVotedView) (hrun : node'.running = node.running)
    (hview : Consensus.ViewAdvances node.consensus node'.consensus)
    (htasks : Accounted cfg seen node'.tasks) : Guarded cfg node' seen where
  bound hrunning := (hview (h.bound (hrun ▸ hrunning))).1
  prepared hrunning m hm hphase := by
    rw [hrun] at hrunning
    rw [hsent] at hm
    obtain ⟨hle, hguard⟩ := h.prepared hrunning m hm hphase
    obtain ⟨-, hadvance⟩ := hview (h.bound hrunning)
    refine ⟨hle.trans hadvance, fun heq => ?_⟩
    rw [hvoted]
    exact hguard (le_antisymm hle (heq ▸ hadvance))
  later := hsent ▸ h.later
  tasks := htasks
  oneBlock := hsent ▸ h.oneBlock
  compatible := h.compatible

/-- The guard of `cast_and_broadcast_vote` keeps a second Prepare vote from being sent. -/
lemma castVote (hrun : node.running = true) {blockHash : Hash}
    (hguard : node.lastVotedView ≠ some node.consensus.currentView) {tasks : List Task}
    (htasks : Accounted cfg seen tasks) :
    Guarded cfg { node with
      lastVotedView := some node.consensus.currentView
      sent := ⟨cfg.validatorAddress, blockHash, node.consensus.currentView, .prepare⟩ :: node.sent
      tasks := tasks } seen where
  bound := h.bound
  prepared _ m hm hphase := by
    rcases List.mem_cons.1 hm with rfl | hm
    · exact ⟨le_rfl, fun _ => rfl⟩
    · obtain ⟨hle, hold⟩ := h.prepared hrun m hm hphase
      exact ⟨hle, fun heq => congrArg some heq.symm⟩
  later m hm hphase := by
    rcases List.mem_cons.1 hm with rfl | hm
    · exact absurd rfl hphase
    · exact h.later m hm hphase
  tasks := htasks
  oneBlock := by
    -- an earlier Prepare vote of this view would be the one that the guard remembers
    have hfresh : ∀ m ∈ node.sent, m.phase = .prepare → m.view ≠ node.consensus.currentView :=
      fun m hm hphase heq =>
        hguard (heq ▸ (h.prepared hrun m hm hphase).2 heq)
    intro m hm m' hm' hview hphase
    rcases List.mem_cons.1 hm with rfl | hm <;> rcases List.mem_cons.1 hm' with rfl | hm'
    · rfl
    · exact absurd hview.symm (hfresh m' hm' hphase.symm)
    · exact absurd hview (hfresh m hm hphase)
    · exact h.oneBlock m hm m' hm' hview hphase
  compatible := h.compatible

/-- A vote that follows from a certificate agrees with every vote of its view and phase. -/
lemma broadcast {vote : Vote} (hvote : FollowsFrom cfg seen vote.signingMessage) {tasks : List Task}
    (htasks : Accounted cfg seen tasks) :
    Guarded cfg { node with sent := vote.signingMessage :: node.sent, tasks := tasks } seen where
  bound := h.bound
  prepared hrunning m hm hphase := by
    rcases List.mem_cons.1 hm with rfl | hm
    · exact absurd hphase hvote.phase_ne
    · exact h.prepared hrunning m hm hphase
  later m hm hphase := by
    rcases List.mem_cons.1 hm with rfl | hm
    · exact hvote
    · exact h.later m hm hphase
  tasks := htasks
  oneBlock := by
    have hagree : ∀ m ∈ node.sent, vote.signingMessage.view = m.view →
        vote.signingMessage.phase = m.phase → vote.signingMessage.blockHash = m.blockHash := by
      intro m hm hview hphase
      generalize vote.signingMessage = sent at hvote hview hphase ⊢
      -- both follow from certificates, and these are compatible
      obtain ⟨qc', hqc', hnext'⟩ := h.later m hm (hphase ▸ hvote.phase_ne)
      obtain ⟨qc, hqc, hnext⟩ := hvote
      have hsame := h.compatible qc hqc qc' hqc'
      unfold nextPhaseVote at hnext hnext'
      split at hnext <;> split at hnext' <;> cases hnext <;> cases hnext' <;>
        simp_all [Compatible]
    intro m hm m' hm' hview hphase
    rcases List.mem_cons.1 hm with rfl | hm <;> rcases List.mem_cons.1 hm' with rfl | hm'
    · rfl
    · exact hagree m' hm' hview hphase
    · exact (hagree m hm hview.symm hphase.symm).symm
    · exact h.oneBlock m hm m' hm' hview hphase
  compatible := h.compatible

/-- Handing a block to consensus sends nothing and leaves at most a vote to cast. -/
lemma admitAndCast (now : ℕ) (block : Block) {rest : List Task}
    (hrest : Accounted cfg seen rest) :
    Guarded cfg { (node.admitAndCast env now block).1 with
      tasks := (node.admitAndCast env now block).2 ++ rest } seen := by
  have hview := @viewAdvances_processBlockProposal env node.consensus now block
  unfold Node.admitAndCast
  split
  · rename_i heq
    rw [heq] at hview
    refine h.advance rfl rfl rfl hview fun t ht => ?_
    rcases List.mem_cons.1 ht with rfl | ht
    · simp [Task.votes]
    · exact hrest t ht
  · rename_i heq
    rw [heq] at hview
    exact h.advance rfl rfl rfl hview hrest

/-- Every task keeps the guard, with `seen` holding the certificate that it hands over. -/
lemma exec (hrun : node.running = true) {task : Task}
    {rest : List Task} (htask : ∀ v ∈ task.votes, FollowsFrom cfg seen v.signingMessage)
    (hrest : Accounted cfg seen rest)
    (hseen : ∀ qc ∈ task.certificateOf env node.consensus, qc ∈ seen) :
    Guarded cfg { (node.exec env cfg task).1 with tasks := (node.exec env cfg task).2 ++ rest }
      seen := by
  have hcons : ∀ t : Task, (∀ v ∈ t.votes, FollowsFrom cfg seen v.signingMessage) →
      Accounted cfg seen (t :: rest) := fun t ht => List.forall_mem_cons.2 ⟨ht, hrest⟩
  have hidle : Guarded cfg { node with tasks := rest } seen :=
    h.advance rfl rfl rfl (.refl _) hrest
  -- the node's next vote after an accepted certificate follows from that certificate
  have hfollows : ∀ qc message, qc ∈ seen →
      (if cfg.validatorMode then nextPhaseVote cfg.validatorAddress qc else none) =
        some message → FollowsFrom cfg seen (signVote cfg message).signingMessage := by
    intro qc message hqc hnext
    split_ifs at hnext
    exact ⟨qc, hqc, hnext⟩
  cases task with
  | networkBlockProposal now block proofs executes =>
    simp only [Node.exec]
    split
    · exact h.admitAndCast now block hrest
    · exact hidle
  | blockProposal now block =>
    exact h.advance rfl rfl rfl (viewAdvances_processBlockProposal now block) hrest
  | produce now block =>
    simp only [Node.exec]
    split
    · split
      · rename_i block
        have hproposed : Guarded cfg
            { node with lastProposedView := some node.consensus.currentView } seen :=
          h.advance rfl rfl rfl (.refl _) h.tasks
        exact hproposed.admitAndCast now block hrest
      · exact hidle
    · exact hidle
  | castVote blockHash =>
    simp only [Node.exec]
    split
    · exact hidle
    · rename_i hguard
      simp only [Bool.or_eq_true, decide_eq_true_eq, not_or] at hguard
      exact h.castVote hrun hguard.2 (hcons _ (by simp [Task.votes]))
  | vote vote =>
    simp only [Node.exec]
    split
    · exact hidle
    · exact h.advance rfl rfl rfl (.refl _) (hcons _ (by simp [Task.votes]))
  | voteLoop generated vote =>
    have hview := @viewAdvances_processVote env node.consensus vote
    have hsend : Accounted cfg seen (generated.map Task.broadcast ++ rest) := by
      intro t ht v hv
      rcases List.mem_append.1 ht with ht | ht
      · obtain ⟨g, hg, rfl⟩ := List.mem_map.1 ht
        obtain rfl := List.mem_singleton.1 hv
        exact htask v hg
      · exact hrest t ht v hv
    simp only [Node.exec]
    split
    · rename_i heq
      rw [heq] at hview
      exact h.advance rfl rfl rfl hview hrest
    · rename_i heq
      rw [heq] at hview
      exact h.advance rfl rfl rfl hview hsend
    · rename_i qc s' heq
      rw [heq] at hview
      obtain ⟨hcert, hverifies⟩ := certificateOf_of_processVote heq
      have hqc : qc ∈ seen := hseen qc (by simp [Task.certificateOf, hcert, hverifies])
      split
      · rename_i message hnext
        refine h.advance rfl rfl rfl hview (hcons _ fun v hv => ?_)
        rcases List.mem_append.1 hv with hv | hv
        · exact htask v hv
        · obtain rfl := List.mem_singleton.1 hv
          exact hfollows qc message hqc hnext
      · exact h.advance rfl rfl rfl hview hsend
  | certificate qc =>
    have hview := @viewAdvances_processQuorumCertificate env node.consensus qc
    simp only [Node.exec]
    split
    · rename_i heq
      rw [heq] at hview
      exact h.advance rfl rfl rfl hview hrest
    · rename_i heq
      rw [heq] at hview
      have hqc : qc ∈ seen :=
        hseen qc (by simp [Task.certificateOf, verifies_of_ok heq])
      split
      · rename_i message hnext
        refine h.advance rfl rfl rfl hview (hcons _ fun v hv => ?_)
        obtain rfl := List.mem_singleton.1 hv
        exact hfollows qc message hqc hnext
      · exact h.advance rfl rfl rfl hview hrest
  | ownVote vote =>
    exact h.advance rfl rfl rfl (viewAdvances_processVote vote) (hcons _ htask)
  | broadcast vote => exact h.broadcast (htask vote List.mem_cons_self) hrest
  | tick timedOut now block =>
    refine h.advance rfl rfl rfl ?_ (hcons _ (by simp [Task.votes]))
    simp only [Node.exec]
    split
    · exact Consensus.ViewAdvances.advanceView _
    · exact .refl _
  | stop => exact h.advance rfl rfl rfl (.of_eq rfl) hrest

lemma start {storage : ConsensusStorage}
    (hrow : RowAhead node.sent storage) : Guarded cfg (Node.start env storage node.sent) seen := by
  unfold Node.start
  split
  · rename_i s heq
    have hview : s.currentView = storage.currentViewRow.getD 0 :=
      currentView_of_start heq
    refine ⟨fun _ => hview ▸ hrow.bound, fun _ m hm hphase => ?_, h.later, by simp, h.oneBlock,
      h.compatible⟩
    have hlt := hrow.above m hm hphase
    rw [← hview] at hlt
    exact ⟨hlt.le, fun heq => absurd heq hlt.ne⟩
  · exact ⟨by simp, by simp, h.later, by simp, h.oneBlock, h.compatible⟩

/-- A move runs an event, which has no votes to send, or the first task that is left. -/
lemma next_votes {move : Move} {task : Task} {rest : List Task}
    (hnext : node.next move = some (task, rest)) :
    node.running = true ∧ Accounted cfg seen (task :: rest) := by
  cases move with
  | event t =>
    simp only [next] at hnext
    split_ifs at hnext with hfree
    cases hnext
    simp only [Bool.and_eq_true] at hfree
    refine ⟨hfree.1.1, fun t ht v hv => ?_⟩
    obtain rfl := List.mem_singleton.1 ht
    cases t <;> simp_all [Task.isEvent, Task.votes]
  | proceed =>
    simp only [next] at hnext
    split at hnext
    · rename_i hrunning htasks
      cases hnext
      exact ⟨hrunning, htasks ▸ h.tasks⟩
    · cases hnext
  | crash storage => cases hnext

end

lemma execNext {move : Move}
    (hextend : Guarded cfg node ((node.certificateOf env move).toList ++ seen)) :
    Guarded cfg (match node.next move with
      | some (task, rest) =>
        { (node.exec env cfg task).1 with tasks := (node.exec env cfg task).2 ++ rest }
      | none => node) ((node.certificateOf env move).toList ++ seen) := by
  split
  · rename_i task rest hnext
    obtain ⟨hrunning, hvotes⟩ := hextend.next_votes hnext
    obtain ⟨htask, hrest⟩ := List.forall_mem_cons.1 hvotes
    refine hextend.exec hrunning htask hrest fun qc hqc => ?_
    refine List.mem_append_left _ (Option.mem_toList.2 ?_)
    simpa [certificateOf, hnext] using hqc
  · exact hextend

lemma step (h : Guarded cfg node seen) {move : Move} (hcrash : SafeCrash node.sent move)
    (hcompat : ∀ qc ∈ node.certificateOf env move, ∀ qc' ∈ seen, Compatible qc qc') :
    Guarded cfg (node.step env cfg move) ((node.certificateOf env move).toList ++ seen) := by
  have hextend := h.extend _ hcompat
  cases move with
  | crash storage => exact hextend.start hcrash
  | event task => exact hextend.execNext
  | proceed => exact hextend.execNext

lemma run (h : Guarded cfg node seen) {moves : List Move}
    (hcareful : Careful env cfg node seen moves) : OneBlock (node.run env cfg moves).sent := by
  induction moves generalizing node seen with
  | nil => exact h.oneBlock
  | cons move rest ih =>
    obtain ⟨hcrash, hcompat, hrest⟩ := hcareful
    exact ih (h.step hcrash hcompat) hrest

end Guarded

/-- In every run of a node over every storage, with a crash at any point, the votes that the
node sends in one view and phase name one block, if every crash leaves a stored view above the
views of the Prepare votes and certificates of one view and phase name one block. -/
theorem oneBlock_of_careful {storage : ConsensusStorage} (hrow : RowAhead [] storage)
    {moves : List Move} (hcareful : Careful env cfg (start env storage []) [] moves) :
    OneBlock ((start env storage []).run env cfg moves).sent := by
  have hempty : Guarded cfg ⟨false, .new storage, none, none, [], []⟩ [] :=
    ⟨by simp, by simp, by simp, by simp, by simp [OneBlock], by simp⟩
  exact (hempty.start hrow).run hcareful

/-! ### Sample runs -/

def sampleConfig : NodeConfig := ⟨1, true, fun _ => 1⟩

def twoValidators : ConsensusStorage :=
  { Consensus.sampleStorage with validatorSetRow := some [.sample 1 1, .sample 2 1] }

def ownBlock (gasLimit : ℕ) : Block :=
  let block := Consensus.sampleChain 1
  { block with header := { block.header with gasLimit := gasLimit } }

def firstLife : Node :=
  (start .sample twoValidators []).run .sample sampleConfig
    [.event (.produce 0 (some (ownBlock 0))), .proceed, .proceed, .proceed]

/-- After a restart the node proposes another block in view 0 and votes for it, although the
row of its first vote is in storage. -/
theorem double_vote_after_restart :
    let node := firstLife.run .sample sampleConfig
      [.crash firstLife.consensus.storage, .event (.produce 0 (some (ownBlock 1))), .proceed]
    (firstLife.consensus.storage.voteRows.lookup
        (0, 1, Env.sample.hash (ownBlock 0))).isSome = true ∧
      node.sent = [⟨1, Env.sample.hash (ownBlock 1), 0, .prepare⟩,
        ⟨1, Env.sample.hash (ownBlock 0), 0, .prepare⟩] ∧
      ¬ OneBlock node.sent := by
  decide +kernel

def stoppedLife : Node :=
  firstLife.run .sample sampleConfig [.event (.tick true 0 none), .proceed, .event .stop]

def carefulMoves : List Move :=
  [.event (.produce 0 (some (ownBlock 0))), .proceed, .proceed, .proceed,
    .event (.tick true 0 none), .proceed, .event .stop, .crash stoppedLife.consensus.storage,
    .event (.produce 0 (some (ownBlock 1))), .proceed]

theorem oneBlock_after_stop :
    ((start .sample twoValidators []).run .sample sampleConfig carefulMoves).sent =
        [⟨1, Env.sample.hash (ownBlock 1), 1, .prepare⟩,
          ⟨1, Env.sample.hash (ownBlock 0), 0, .prepare⟩] ∧
      OneBlock ((start .sample twoValidators []).run .sample sampleConfig carefulMoves).sent := by
  have hcareful : Careful .sample sampleConfig (start .sample twoValidators []) []
      carefulMoves := by decide +kernel
  exact ⟨by decide +kernel, oneBlock_of_careful (by decide) hcareful⟩

end Node

end Sxiaum
