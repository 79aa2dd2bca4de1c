import Sxiaum.Client.EpochSync
import Sxiaum.Client.HeaderSync
import Sxiaum.Lib.HashChain

/-!
# Runs of the light client

The headers that a client retains are the end of one hash-linked log that starts at the trusted
header, and a quorum stands behind each one that the client has added. The root of the trusted
set never changes in a run: a header is taken only with the root of the set that the client has,
and a set only with the root of the latest header. So a client follows a chain up to the first
header that commits to another set.
-/

namespace Sxiaum.LightClient

open Guards

variable {o : LightOracles}

/-! ### A toy chain -/

/-- A header's hash spells its parent's hash and its validator root. -/
def toyHeaderHash (parentHash validatorRoot : Hash) : Hash := Nat.pair parentHash validatorRoot + 1

def toyLight : LightOracles where
  checks := { Nano.toyOracles.checks with
    headerHash := fun h => .ok (toyHeaderHash h.parentHash h.validatorRoot) }
  domainHash := Nano.toyOracles.domainHash
  computeValidatorRoot := Nano.toyOracles.computeValidatorRoot
  verifyZkValidityProof := fun _ _ => .ok true

def madeLight (headerHash : BlockHeader → Hash) (made : List (ℕ × Hash)) : LightOracles :=
  { Nano.madeOracles headerHash made with verifyZkValidityProof := fun _ _ => .ok true }

def toyHeaderBy (proposer height parentHash validatorRoot : ℕ) : BlockHeader :=
  { Nano.toyHeader height parentHash (1704067200 + height) validatorRoot with
    proposer := proposer
    signature := some (Nat.pair proposer (toyHeaderHash parentHash validatorRoot)) }

def toyEnvelope (header : BlockHeader) (phase : ℕ) : VerifiedHeaderEnvelope where
  header := header
  consensusSignatures := [(header.proposer, Nat.pair header.proposer
    (toyLight.hotstuffVoteDigest header.proposer
      (toyHeaderHash header.parentHash header.validatorRoot) 3 phase))]
  hotstuffViewPhase := some (3, phase)

def toyClock : Clock := fun _ => (1704067300, 1704067300)

def toyFirst : BlockHeader := toyHeaderBy 1 1 7 1001

def toyChild (proposer validatorRoot : ℕ) : BlockHeader :=
  toyHeaderBy proposer 2 (toyHeaderHash 7 1001) validatorRoot

def toyStart : HeaderSync := ⟨1, [toyFirst], [1], [.sample 1 1]⟩

lemma toyStart_new : HeaderSync.newTrusted toyLight toyFirst [.sample 1 1] [1] = .ok toyStart := by
  decide +kernel

namespace HeaderSync

variable {s s' : HeaderSync} {trusted : BlockHeader} {log : List BlockHeader}

/-! ### The log of a run -/

lemma foldl_height (headers : List BlockHeader) (height : ℕ) :
    headers.foldl (fun _ header => header.height) height =
      (headers.getLast?.map BlockHeader.height).getD height := by
  induction headers generalizing height with
  | nil => rfl
  | cons header rest ih =>
    rw [List.foldl_cons, ih, List.getLast?_cons]
    cases rest.getLast? <;> rfl

lemma rtake_append_rtake {α : Type} (l m : List α) (n : ℕ) :
    (l.rtake n ++ m).rtake n = (l ++ m).rtake n := by
  have hsplit : (l ++ m).drop (l.length - n) = l.rtake n ++ m :=
    List.drop_append_of_le_length (Nat.sub_le _ _)
  rw [← hsplit, List.rtake, List.rtake, List.drop_drop, List.length_drop, List.length_append]
  congr 1
  omega

lemma getLast?_rtake {α : Type} (l : List α) {n : ℕ} (hn : 0 < n) :
    (l.rtake n).getLast? = l.getLast? := by
  rw [List.rtake, List.getLast?_drop]
  split_ifs with h
  · obtain rfl := List.length_eq_zero_iff.1 (by omega : l.length = 0)
    rfl
  · rfl

/-- All the headers of a run, from the trusted one on; the client retains the end. -/
structure History (o : LightOracles) (trusted : BlockHeader) (s : HeaderSync)
    (log : List BlockHeader) : Prop where
  first : log.head? = some trusted
  chain : log.IsChain (Linked o)
  height : log.getLast?.map BlockHeader.height = some s.currentHeight
  kept : s.verifiedHeaders = log.rtake maxRetainedHeaders

lemma History.getLast? (h : History o trusted s log) :
    s.verifiedHeaders.getLast? = log.getLast? := by
  rw [h.kept]
  exact getLast?_rtake log (by decide)

variable {validatorSet : List Validator} {zkVerificationKey : List UInt8} {Signed : ℕ → Hash → Prop}

lemma newTrusted_ok (h : newTrusted o trusted validatorSet zkVerificationKey = .ok s) :
    s = ⟨trusted.height, [trusted], zkVerificationKey, validatorSet⟩ ∧
      validateValidatorSet o validatorSet = .ok () ∧
      (trusted.validatorRoot ≠ 0 →
        o.computeValidatorRoot validatorSet = .ok trusted.validatorRoot) := by
  by_cases hroot : trusted.validatorRoot ≠ 0
  · simp only [newTrusted, if_pos hroot, bind_ok, exists_unit, bailIf_ok, not_not,
      mapError_eq_ok, pure_ok] at h
    obtain ⟨-, -, -, hvalid, -, root, hcompute, rfl, rfl⟩ := h
    exact ⟨rfl, hvalid, fun _ => hcompute⟩
  · simp only [newTrusted, if_neg hroot, bind_ok, exists_unit, bailIf_ok, not_not,
      mapError_eq_ok, pure_ok] at h
    obtain ⟨-, -, -, hvalid, -, rfl⟩ := h
    exact ⟨rfl, hvalid, fun h => absurd h hroot⟩

lemma history_newTrusted (h : newTrusted o trusted validatorSet zkVerificationKey = .ok s) :
    History o trusted s [trusted] := by
  obtain ⟨rfl, -, -⟩ := newTrusted_ok h
  refine ⟨rfl, List.IsChain.singleton _, rfl, ?_⟩
  simp [List.rtake, maxRetainedHeaders]

lemma commitBatch_verifiedHeaders (headers : List BlockHeader) :
    (s.commitBatch headers).verifiedHeaders =
      (s.verifiedHeaders ++ headers).rtake maxRetainedHeaders := by
  rw [commitBatch, List.rtake]

lemma History.take (h : History o trusted s log) {batch : List VerifiedHeaderEnvelope}
    {clock : Clock} (htakes : Takes o s batch clock) :
    History o trusted (s.commitBatch (batch.map VerifiedHeaderEnvelope.header))
        (log ++ batch.map VerifiedHeaderEnvelope.header) ∧
      ∃ root, o.computeValidatorRoot s.validatorSet = .ok root ∧
        ∀ e ∈ batch, e.header.validatorRoot = root ∧
          ∃ p, Passes o s.validatorSet s.zkVerificationKey clock p e := by
  obtain ⟨-, root, parent, hroot, hparent, hrun⟩ := htakes
  have hlast : log.getLast? = some parent := h.getLast?.symm.trans hparent
  have hheight : s.currentHeight = parent.height := by
    have hheight := h.height
    rw [hlast] at hheight
    exact (Option.some.inj hheight).symm
  rw [hheight] at hrun
  obtain ⟨hchain, hbatch⟩ := verifyEnvelopes_ok hrun
  refine ⟨⟨?_, ?_, ?_, ?_⟩, root, hroot, hbatch⟩
  · rw [List.head?_append, h.first, Option.some_or]
  · refine List.isChain_append.2 ⟨h.chain, hchain.tail, ?_⟩
    intro x hx y hy
    obtain rfl : parent = x := Option.some.inj (hlast.symm.trans hx)
    exact List.IsChain.rel_head? hchain hy
  · rw [commitBatch, foldl_height, List.getLast?_append]
    cases hnew : (batch.map VerifiedHeaderEnvelope.header).getLast? with
    | none => rw [Option.none_or, h.height]; rfl
    | some last => rfl
  · rw [commitBatch_verifiedHeaders, h.kept, rtake_append_rtake]

/-! ### The retained headers -/

/-- A quorum of a set whose root the header carries has signed it: each signer the header's hash,
or the vote for it in one view and phase. -/
def Certified (o : LightOracles) (Signed : ℕ → Hash → Prop) (header : BlockHeader) : Prop :=
  ∃ validatorSet hash hotstuffViewPhase,
    o.computeValidatorRoot validatorSet = .ok header.validatorRoot ∧
    o.checks.headerHash header = .ok hash ∧
    QuorumHas validatorSet fun v => Signed v.pubkey hash ∨
      ∃ view phase, hotstuffViewPhase = some (view, phase) ∧
        Signed v.pubkey (o.hotstuffVoteDigest v.address hash view phase)

lemma Passes.certified (hunforgeable : o.Unforgeable Signed)
    {validatorSet : List Validator} {zkVerificationKey : List UInt8} {clock : Clock}
    {parent : BlockHeader} {e : VerifiedHeaderEnvelope}
    (h : Passes o validatorSet zkVerificationKey clock parent e)
    (hroot : o.computeValidatorRoot validatorSet = .ok e.header.validatorRoot) :
    Certified o Signed e.header := by
  obtain ⟨-, hash, accepted, hhash, hverified⟩ := h
  refine ⟨validatorSet, hash, e.hotstuffViewPhase, hroot, hhash, ?_⟩
  refine (quorum_of_verified hverified).mono fun v _ hv => ?_
  obtain ⟨signature, -, hvalid⟩ := hv
  -- a vote is a signature of the header's hash or of the vote
  rcases Bool.or_eq_true_iff.1 hvalid with hdirect | hvote
  · exact Or.inl (hunforgeable _ _ _ hdirect)
  · match e.hotstuffViewPhase, hvote with
    | some (view, phase), hvote => exact Or.inr ⟨view, phase, rfl, hunforgeable _ _ _ hvote⟩

lemma exists_certified_history (hunforgeable : o.Unforgeable Signed)
    (h : History o trusted s [trusted]) (calls : List Call) :
    ∃ log, History o trusted (run o s calls) log ∧
      ∀ header ∈ log, header = trusted ∨ Certified o Signed header := by
  refine run_induction (P := fun s => ∃ log, History o trusted s log ∧
    ∀ header ∈ log, header = trusted ∨ Certified o Signed header) ?_ ⟨[trusted], h, by simp⟩ calls
  rintro s call s' ⟨log, hlog, hcertified⟩ hmoves
  cases hmoves with
  | stay clock => exact ⟨log, hlog, hcertified⟩
  | replace valid last root => exact ⟨log, { hlog with }, hcertified⟩
  | take htakes =>
    obtain ⟨hnext, root, hroot, hbatch⟩ := hlog.take htakes
    refine ⟨_, hnext, fun header hheader => ?_⟩
    rcases List.mem_append.1 hheader with hold | hnew
    · exact hcertified header hold
    · obtain ⟨e, he, rfl⟩ := List.mem_map.1 hnew
      obtain ⟨hcarries, parent, hpasses⟩ := hbatch e he
      rw [← hcarries] at hroot
      exact Or.inr (hpasses.certified hunforgeable hroot)

/-- What holds of the retained headers. -/
structure Retained (o : LightOracles) (Signed : ℕ → Hash → Prop) (trusted : BlockHeader)
    (s : HeaderSync) : Prop where
  chain : s.verifiedHeaders.IsChain (Linked o)
  tip : s.verifiedHeaders.getLast?.map BlockHeader.height = some s.currentHeight
  certified : ∀ header ∈ s.verifiedHeaders, header = trusted ∨ Certified o Signed header
  bounded : s.verifiedHeaders.length ≤ maxRetainedHeaders

/-- After every run the retained headers are linked up to the current height, certified and
bounded in number, and a call that fails then changes nothing. -/
theorem retained_run (hunforgeable : o.Unforgeable Signed)
    {validatorSet : List Validator} {zkVerificationKey : List UInt8}
    (hnew : newTrusted o trusted validatorSet zkVerificationKey = .ok s) (calls : List Call) :
    Retained o Signed trusted (run o s calls) ∧
      ∀ call e, ((run o s calls).step o call).1 = .error e →
        ((run o s calls).step o call).2 = run o s calls := by
  constructor
  · obtain ⟨log, hlog, hcertified⟩ :=
      exists_certified_history hunforgeable (history_newTrusted hnew) calls
    refine ⟨?_, ?_, ?_, ?_⟩
    · rw [hlog.kept]
      exact hlog.chain.drop _
    · rw [hlog.getLast?, hlog.height]
    · intro header hheader
      rw [hlog.kept] at hheader
      exact hcertified header (List.mem_of_mem_drop hheader)
    · rw [hlog.kept, List.rtake, List.length_drop]
      omega
  · intro call e he
    rcases step_cases (o := o) (run o s calls) call with ⟨e', herror⟩ | ⟨hok, -⟩
    · rw [herror]
    · rw [hok] at he
      cases he

def fairRoot : Hash := 1001002003004

def fairFirst : BlockHeader := toyHeaderBy 1 1 7 fairRoot

def fairChild : BlockHeader := toyHeaderBy 1 2 (toyHeaderHash 7 fairRoot) fairRoot

def childMade : List (ℕ × Hash) := Nano.fairMade (toyHeaderHash fairChild.parentHash fairRoot) 3

def fairLight : LightOracles :=
  madeLight (fun h => toyHeaderHash h.parentHash h.validatorRoot) childMade

def fairStart : HeaderSync := ⟨1, [fairFirst], [1], Nano.fairValidators⟩

/-- A client that has taken a header which three of four validators have signed. -/
theorem retained_run_child :
    newTrusted fairLight fairFirst Nano.fairValidators [1] = .ok fairStart ∧
    ∃ calls, (run fairLight fairStart calls).verifiedHeaders = [fairFirst, fairChild] ∧
      Retained fairLight (fun key message => (key, message) ∈ childMade) fairFirst
        (run fairLight fairStart calls) := by
  have hnew : newTrusted fairLight fairFirst Nano.fairValidators [1] = .ok fairStart := by
    decide +kernel
  have hunforgeable := Nano.madeOracles_unforgeable
    (fun h => toyHeaderHash h.parentHash h.validatorRoot) childMade
  refine ⟨hnew, [.receive [⟨fairChild, [(1, 0), (2, 0), (4, 0)], some (3, 2)⟩] toyClock], ?_, ?_⟩
  · decide +kernel
  · exact (retained_run hunforgeable hnew _).1

/-! ### Chains with changing sets -/

/-- A header of a chain with the set in force and the set that its root commits to. -/
structure ChainLink where
  envelope : VerifiedHeaderEnvelope
  inForce : List Validator
  committed : List Validator

/-- A chain on top of a header: each header passes the client's checks under the set in force, and
commits to that set or to the one in force from the next header on. -/
def HonestChain (o : LightOracles) (zkVerificationKey : List UInt8) (clock : Clock) :
    BlockHeader → List Validator → List ChainLink → Prop
  | _, _, [] => True
  | parent, committed, link :: rest =>
    o.computeValidatorRoot link.committed = .ok link.envelope.header.validatorRoot ∧
      (link.inForce = link.committed ∨ link.inForce = committed) ∧
      Passes o link.inForce zkVerificationKey clock parent link.envelope ∧
      HonestChain o zkVerificationKey clock link.envelope.header link.committed rest

def headersOf (first : BlockHeader) (links : List ChainLink) : List BlockHeader :=
  first :: links.map fun link => link.envelope.header

/-- The client's latest header is the last one of the chain. -/
def AtTip (first : BlockHeader) (links : List ChainLink) (s : HeaderSync) : Prop :=
  s.verifiedHeaders.getLast? = (headersOf first links).getLast?

/-- Headers with one hash agree in their parents and their validator roots. -/
def CollisionFree (o : LightOracles) : Prop :=
  ∀ a b hash, o.checks.headerHash a = .ok hash → o.checks.headerHash b = .ok hash →
    a.parentHash = b.parentHash ∧ a.validatorRoot = b.validatorRoot

/-- No set that a client accepts has the root of the empty one. -/
def NonzeroRoots (o : LightOracles) : Prop :=
  ∀ validatorSet, validateValidatorSet o validatorSet = .ok () →
    o.computeValidatorRoot validatorSet ≠ .ok 0

section Sets

variable {zkVerificationKey : List UInt8} {clock : Clock} {first parent : BlockHeader}
  {validatorSet committed : List Validator} {links : List ChainLink}

lemma HonestChain.isChain (h : HonestChain o zkVerificationKey clock first committed links) :
    (headersOf first links).IsChain (Linked o) := by
  induction links generalizing first committed with
  | nil => exact List.IsChain.singleton _
  | cons link rest ih =>
    obtain ⟨-, -, hpasses, hrest⟩ := h
    exact List.isChain_cons_cons.2 ⟨hpasses.linked.1, ih hrest⟩

lemma HonestChain.root (h : HonestChain o zkVerificationKey clock first committed links)
    {link : ChainLink} (hlink : link ∈ links) :
    o.computeValidatorRoot link.committed = .ok link.envelope.header.validatorRoot := by
  induction links generalizing first committed with
  | nil => cases hlink
  | cons l rest ih =>
    obtain ⟨hroot, -, -, hrest⟩ := h
    rcases List.mem_cons.1 hlink with rfl | hlink
    · exact hroot
    · exact ih hrest hlink

lemma height_getLast? {l : List BlockHeader} (h : (parent :: l).IsChain (Linked o))
    {last : BlockHeader} (hlast : (parent :: l).getLast? = some last) :
    last.height = parent.height + l.length := by
  induction l generalizing parent with
  | nil =>
    obtain rfl : parent = last := Option.some.inj hlast
    rfl
  | cons next rest ih =>
    obtain ⟨⟨hheight, -⟩, hrest⟩ := List.isChain_cons_cons.1 h
    rw [List.getLast?_cons_cons] at hlast
    rw [ih hrest hlast, hheight, List.length_cons]
    omega

/-- The root of the client's set, and the roots of the headers it has added. -/
structure OneRoot (o : LightOracles) (root : Hash) (first : BlockHeader) (s : HeaderSync)
    (log : List BlockHeader) : Prop where
  history : History o first s log
  set : o.computeValidatorRoot s.validatorSet = .ok root
  headers : ∀ header ∈ log.tail, header.validatorRoot = root

lemma exists_oneRoot (hzero : NonzeroRoots o)
    (hnew : newTrusted o first validatorSet zkVerificationKey = .ok s) {root : Hash}
    (hroot : o.computeValidatorRoot validatorSet = .ok root) (calls : List Call) :
    ∃ log, OneRoot o root first (run o s calls) log := by
  obtain ⟨hs, -, hfirst⟩ := newTrusted_ok hnew
  have hstart : OneRoot o root first s [first] := by
    refine ⟨history_newTrusted hnew, ?_, by simp⟩
    rw [hs]
    exact hroot
  refine run_induction (P := fun s => ∃ log, OneRoot o root first s log) ?_ ⟨_, hstart⟩ calls
  rintro s call s' ⟨log, hlog⟩ hmoves
  have hsplit : log = first :: log.tail := (List.cons_head?_tail hlog.history.first).symm
  cases hmoves with
  | stay clock => exact ⟨log, hlog⟩
  | take htakes =>
    obtain ⟨hnext, root', hroot', hbatch⟩ := hlog.history.take htakes
    obtain rfl : root = root' := Except.ok.inj (hlog.set.symm.trans hroot')
    refine ⟨_, hnext, hlog.set, fun header hheader => ?_⟩
    rw [hsplit, List.cons_append, List.tail_cons] at hheader
    rcases List.mem_append.1 hheader with hold | hadded
    · exact hlog.headers header hold
    · obtain ⟨e, he, rfl⟩ := List.mem_map.1 hadded
      exact (hbatch e he).1
  | @replace newSet latest valid last hlatest =>
    refine ⟨log, { hlog.history with }, ?_, hlog.headers⟩
    have hmem : latest ∈ first :: log.tail := by
      rw [← hsplit]
      exact List.mem_of_getLast? (hlog.history.getLast?.symm.trans last)
    rcases List.mem_cons.1 hmem with rfl | hadded
    · -- the trusted header has the root of the first set, or zero, which no set has
      have hnonzero : latest.validatorRoot ≠ 0 := fun h => hzero newSet valid (h ▸ hlatest)
      exact hlatest.trans ((hfirst hnonzero).symm.trans hroot)
    · rw [← hlog.headers latest hadded]
      exact hlatest

lemma root_of_atTip (hfree : CollisionFree o) {root : Hash} {log : List BlockHeader}
    (hlog : OneRoot o root first s log)
    (hchain : HonestChain o zkVerificationKey clock first committed links)
    (htip : AtTip first links s) {link : ChainLink} (hlink : link ∈ links) :
    link.envelope.header.validatorRoot = root := by
  have hsplit : log = first :: log.tail := (List.cons_head?_tail hlog.history.first).symm
  have hlast : log.getLast? = (headersOf first links).getLast? :=
    hlog.history.getLast?.symm.trans htip
  have hlinked : (first :: log.tail).IsChain (Linked o) := hsplit ▸ hlog.history.chain
  have hlength : log.tail.length = (links.map fun l => l.envelope.header).length := by
    obtain ⟨last, htop⟩ : ∃ last, (first :: log.tail).getLast? = some last :=
      ⟨_, List.getLast?_eq_some_getLast (List.cons_ne_nil _ _)⟩
    have htop' : (headersOf first links).getLast? = some last := by
      rw [← hlast, ← htop, ← hsplit]
    have hheight := height_getLast? hlinked htop
    have hheight' := height_getLast? hchain.isChain htop'
    omega
  have hlength' : (first :: log.tail).length = (headersOf first links).length :=
    congrArg Nat.succ hlength
  -- two chains with one end agree link by link, from the tip down
  have hrelated := HashChain.forall₂_of_isChain
    (R := Linked o)
    (E := fun a b => a.parentHash = b.parentHash ∧ a.validatorRoot = b.validatorRoot)
    (fun hab hab' hb => hfree _ _ _ hab.2 (hb.1 ▸ hab'.2))
    hlength' hlinked hchain.isChain ?_
  · have htail := (List.forall₂_cons.1 hrelated).2.imp fun _ _ h => h.2
    have hroots : log.tail.map BlockHeader.validatorRoot =
        (links.map fun l => l.envelope.header).map BlockHeader.validatorRoot := by
      rw [← List.forall₂_eq_eq_eq, List.forall₂_map_left_iff, List.forall₂_map_right_iff]
      exact htail
    have hmem := List.mem_map_of_mem (f := BlockHeader.validatorRoot)
      (List.mem_map_of_mem (f := fun l : ChainLink => l.envelope.header) hlink)
    rw [← hroots] at hmem
    obtain ⟨header, hheader, hsame⟩ := List.mem_map.1 hmem
    rw [← hsame]
    exact hlog.headers header hheader
  · intro a b ha hb
    rw [← hsplit, hlast, hb] at ha
    obtain rfl := Option.some.inj ha
    exact ⟨rfl, rfl⟩

/-- A client at a header of a chain, with a set and a key. -/
structure At (validatorSet : List Validator) (zkVerificationKey : List UInt8)
    (parent : BlockHeader) (s : HeaderSync) : Prop where
  set : s.validatorSet = validatorSet
  key : s.zkVerificationKey = zkVerificationKey
  last : s.verifiedHeaders.getLast? = some parent
  height : s.currentHeight = parent.height

lemma At.receive (h : At validatorSet zkVerificationKey parent s)
    (hvalid : validateValidatorSet o validatorSet = .ok ()) {e : VerifiedHeaderEnvelope}
    (hroot : o.computeValidatorRoot validatorSet = .ok e.header.validatorRoot)
    (hpasses : Passes o validatorSet zkVerificationKey clock parent e) :
    At validatorSet zkVerificationKey e.header (s.step o (.receive [e] clock)).2 := by
  have htakes : Takes o s [e] clock := by
    refine ⟨h.set ▸ hvalid, _, parent, h.set ▸ hroot, h.last, ?_⟩
    have hone := verifyEnvelope_of_passes (h.set.symm ▸ h.key.symm ▸ hpasses) rfl
    rw [h.height]
    simp only [verifyEnvelopes, bind_ok, exists_unit, and_true]
    exact hone
  have hstep : (s.step o (.receive [e] clock)).2 = s.commitBatch [e.header] := by
    have hbatch := verifyBatch_ok.2 htakes
    have hsort : sortByHeight [e] = [e] := rfl
    rw [step, receiveVerifiedHeaders, if_neg (List.cons_ne_nil _ _),
      if_neg (by simp [maxHeaderBatchSize]), processVerifiedBatch, hsort, hbatch]
    rfl
  rw [hstep]
  refine ⟨h.set, h.key, ?_, rfl⟩
  rw [commitBatch_verifiedHeaders, getLast?_rtake _ (by decide), List.getLast?_concat]

lemma exists_calls_to_tip (hvalid : validateValidatorSet o validatorSet = .ok ())
    (h : At validatorSet zkVerificationKey parent s)
    (hchain : HonestChain o zkVerificationKey clock parent validatorSet links)
    (hsame : ∀ link ∈ links, link.committed = validatorSet) :
    ∃ calls, AtTip parent links (run o s calls) := by
  induction links generalizing s parent with
  | nil => exact ⟨[], h.last⟩
  | cons link rest ih =>
    obtain ⟨hroot, hforce, hpasses, hrest⟩ := hchain
    have hcommitted := hsame link List.mem_cons_self
    have hinForce : link.inForce = validatorSet := by
      rcases hforce with hforce | hforce
      · exact hforce.trans hcommitted
      · exact hforce
    rw [hcommitted] at hroot hrest
    rw [hinForce] at hpasses
    obtain ⟨calls, hcalls⟩ := ih (h.receive hvalid hroot hpasses) hrest fun l hl =>
      hsame l (List.mem_cons_of_mem _ hl)
    refine ⟨.receive [link.envelope] clock :: calls, ?_⟩
    rw [run]
    exact hcalls

end Sets

/-- A client that starts at the first header of a chain can be brought to its tip if every header
commits to the set that the client starts with; where hashes and roots do not collide, only
then. -/
theorem reaches_tip_iff {first : BlockHeader} {validatorSet : List Validator}
    {zkVerificationKey : List UInt8}
    (hnew : newTrusted o first validatorSet zkVerificationKey = .ok s) {clock : Clock}
    {links : List ChainLink}
    (hchain : HonestChain o zkVerificationKey clock first validatorSet links) :
    ((∀ link ∈ links, link.committed = validatorSet) →
      ∃ calls, AtTip first links (run o s calls)) ∧
    (CollisionFree o → NonzeroRoots o → ∀ root, o.computeValidatorRoot validatorSet = .ok root →
      (∀ link ∈ links, o.computeValidatorRoot link.committed = .ok root →
        link.committed = validatorSet) →
      ((∃ calls, AtTip first links (run o s calls)) ↔
        ∀ link ∈ links, link.committed = validatorSet)) := by
  have hreach (hsame : ∀ link ∈ links, link.committed = validatorSet) :
      ∃ calls, AtTip first links (run o s calls) := by
    obtain ⟨rfl, hvalid, -⟩ := newTrusted_ok hnew
    exact exists_calls_to_tip hvalid ⟨rfl, rfl, rfl, rfl⟩ hchain hsame
  refine ⟨hreach, fun hfree hzero root hroot hroots => ⟨?_, hreach⟩⟩
  rintro ⟨calls, htip⟩ link hlink
  obtain ⟨log, hlog⟩ := exists_oneRoot hzero hnew hroot calls
  have hsame := root_of_atTip hfree hlog hchain htip hlink
  exact hroots link hlink (hsame ▸ hchain.root hlink)

/-! ### Toy chains -/

lemma toyLight_collisionFree : CollisionFree toyLight := by
  intro a b hash ha hb
  have hpair : Nat.pair a.parentHash a.validatorRoot = Nat.pair b.parentHash b.validatorRoot :=
    Nat.succ.inj (Except.ok.inj (ha.trans hb.symm))
  exact Nat.pair_eq_pair.1 hpair

lemma toyLight_nonzeroRoots : NonzeroRoots toyLight := by
  intro validatorSet _ h
  have hpos (vs : List Validator) (n : ℕ) (hn : 0 < n) :
      0 < vs.foldl (fun n v => n * 1000 + v.address) n := by
    induction vs generalizing n with
    | nil => exact hn
    | cons v rest ih => exact ih _ (Nat.add_pos_left (Nat.mul_pos hn (by decide)) _)
  exact (hpos validatorSet 1 Nat.one_pos).ne' (Except.ok.inj h)

def toyChain (proposer validatorRoot : ℕ) (inForce committed : List Validator) :
    List ChainLink :=
  [⟨toyEnvelope (toyChild proposer validatorRoot) 2, inForce, committed⟩]

lemma toyChain_honest {proposer validatorRoot : ℕ} {inForce committed : List Validator}
    (hroot : toyLight.computeValidatorRoot committed = .ok validatorRoot)
    (hforce : inForce = committed ∨ inForce = [.sample 1 1])
    (hverified : HeaderSync.verifyEnvelope toyLight ⟨1, [toyFirst], [1], inForce⟩ validatorRoot
      toyClock toyFirst.height toyFirst
      (toyEnvelope (toyChild proposer validatorRoot) 2) = .ok ()) :
    HonestChain toyLight [1] toyClock toyFirst [.sample 1 1]
      (toyChain proposer validatorRoot inForce committed) :=
  ⟨hroot, hforce, (passes_of_verifyEnvelope hverified).1, trivial⟩

def toyGrandchild : BlockHeader :=
  toyHeaderBy 1 3 (toyHeaderHash (toyHeaderHash 7 1001) 1001) 1001

def steadyChain : List ChainLink :=
  [toyChild 1 1001, toyGrandchild].map fun header =>
    ⟨toyEnvelope header 2, [.sample 1 1], [.sample 1 1]⟩

/-- A chain whose set stays the same. -/
theorem reaches_tip_same_set :
    ∃ calls, AtTip toyFirst steadyChain (run toyLight toyStart calls) := by
  have hchild : verifyEnvelope toyLight toyStart 1001 toyClock 1 toyFirst
      (toyEnvelope (toyChild 1 1001) 2) = .ok () := by decide +kernel
  have hgrandchild : verifyEnvelope toyLight toyStart 1001 toyClock 2 (toyChild 1 1001)
      (toyEnvelope toyGrandchild 2) = .ok () := by decide +kernel
  have hchain : HonestChain toyLight [1] toyClock toyFirst [.sample 1 1] steadyChain :=
    ⟨rfl, Or.inl rfl, (passes_of_verifyEnvelope hchild).1, rfl, Or.inl rfl,
      (passes_of_verifyEnvelope hgrandchild).1, trivial⟩
  apply (reaches_tip_iff toyStart_new hchain).1
  intro link hlink
  obtain ⟨header, -, rfl⟩ := List.mem_map.1 hlink
  rfl

/-- No calls bring the client to a header that commits to validator 2, whether validator 2 has
signed that header or validator 1 still has. -/
theorem tip_out_of_reach :
    HeaderSync.newTrusted toyLight toyFirst [.sample 1 1] [1] = .ok toyStart ∧
    (HonestChain toyLight [1] toyClock toyFirst [.sample 1 1]
        (toyChain 2 1002 [.sample 2 1] [.sample 2 1]) ∧
      ∀ calls, ¬ AtTip toyFirst (toyChain 2 1002 [.sample 2 1] [.sample 2 1])
        (run toyLight toyStart calls)) ∧
    HonestChain toyLight [1] toyClock toyFirst [.sample 1 1]
        (toyChain 1 1002 [.sample 1 1] [.sample 2 1]) ∧
      ∀ calls, ¬ AtTip toyFirst (toyChain 1 1002 [.sample 1 1] [.sample 2 1])
        (run toyLight toyStart calls) := by
  have hstuck {proposer : ℕ} {inForce : List Validator}
      (hchain : HonestChain toyLight [1] toyClock toyFirst [.sample 1 1]
        (toyChain proposer 1002 inForce [.sample 2 1])) (calls : List Call) :
      ¬ AtTip toyFirst (toyChain proposer 1002 inForce [.sample 2 1])
        (run toyLight toyStart calls) := by
    intro htip
    obtain ⟨log, hlog⟩ :=
      exists_oneRoot toyLight_nonzeroRoots toyStart_new
        (rfl : toyLight.computeValidatorRoot [.sample 1 1] = .ok 1001) calls
    have hroot : (1002 : ℕ) = 1001 :=
      root_of_atTip toyLight_collisionFree hlog hchain htip List.mem_cons_self
    omega
  have hnext : HonestChain toyLight [1] toyClock toyFirst [.sample 1 1]
      (toyChain 2 1002 [.sample 2 1] [.sample 2 1]) :=
    toyChain_honest rfl (Or.inl rfl) (by decide +kernel)
  have hsame : HonestChain toyLight [1] toyClock toyFirst [.sample 1 1]
      (toyChain 1 1002 [.sample 1 1] [.sample 2 1]) :=
    toyChain_honest rfl (Or.inr rfl) (by decide +kernel)
  exact ⟨toyStart_new, ⟨hnext, hstuck hnext⟩, hsame, hstuck hsame⟩

end HeaderSync

end Sxiaum.LightClient
