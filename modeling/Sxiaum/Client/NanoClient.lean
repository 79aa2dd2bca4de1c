import Sxiaum.Client.EpochSync
import Sxiaum.Lib.HashChain

/-!
# The nano client

`NanoLightClient` (`nano/src/light_client.rs`): headers are appended one by one under the
validator set of the current epoch, and `handle_gap_sync` jumps over epochs along handover
certificates. A header that is appended names the verified head as its parent; the boundary
header of a certificate becomes the verified head whatever it is linked to, and certificates
take effect one by one even if a later one is refused. A client that starts from a checkpoint
has no verified head, so that nothing links its first header to the checkpoint.
-/

namespace Sxiaum.Nano

open Guards HashChain

/-! ### The client -/

structure NanoLightConfig where
  initialValidatorSet : List Validator
  ringBufferCapacity : ℕ
  maxTimestampDriftSecs : ℕ
  chainId : ℕ

structure NanoLightClient (o : ClientOracles) where
  epochManager : EpochSyncManager o
  headerBuffer : List BlockHeader
  latestVerifiedHeader : Option BlockHeader
  config : NanoLightConfig

namespace NanoLightClient

variable {o : ClientOracles}

def new (config : NanoLightConfig) : Except NanoError (NanoLightClient o) := do
  bailIf (config.chainId ≠ chainIdMainnet) (.unsupportedChainId config.chainId chainIdMainnet)
  let epochManager ← EpochSyncManager.new o 0 config.initialValidatorSet
  return ⟨epochManager, [], none, config⟩

/-- The block hash and the height of the checkpoint are not kept. -/
def fromCheckpoint (checkpoint : WeakSubjectivityCheckpoint) (config : NanoLightConfig)
    (currentTime maxUnbondingSecs : ℕ) : Except NanoError (NanoLightClient o) := do
  let _ ← EpochSyncManager.new o checkpoint.epoch checkpoint.validatorSet
  let epochManager ←
    EpochSyncManager.verifyAndApplyCheckpoint checkpoint currentTime maxUnbondingSecs
  return ⟨epochManager, [], none, config⟩

variable (c : NanoLightClient o)

def currentHeight : ℕ := (c.latestVerifiedHeader.map BlockHeader.height).getD 0

/-- The header becomes the verified head and enters the ring buffer. -/
def record (header : BlockHeader) : NanoLightClient o :=
  let kept := if c.config.ringBufferCapacity ≤ c.headerBuffer.length then c.headerBuffer.tail
    else c.headerBuffer
  { c with headerBuffer := kept ++ [header], latestVerifiedHeader := some header }

/-! ### Appending a header -/

def checkLinkage (header : BlockHeader) : Except NanoError Unit :=
  match c.latestVerifiedHeader with
  | none => .ok ()
  | some parent => do
    let expectedHeight := satAdd64 parent.height 1
    bailIf (header.height ≠ expectedHeight) (.heightMismatch expectedHeight header.height)
    let parentHash ← (o.checks.headerHash parent).mapError .crypto
    bailIf (header.parentHash ≠ parentHash)
      (.parentHashMismatch header.height (hex32 parentHash) (hex32 header.parentHash))
    bailIf (header.verifyTimestamp parent.timestamp = false)
      (.timestampRegression header.height header.timestamp parent.timestamp)

def checkProposer (header : BlockHeader) : Except NanoError Unit :=
  match c.epochManager.findActive header.proposer with
  | none => .error (.unknownSigner (displayAddress header.proposer))
  | some proposer => do
    let derived := o.checks.addressFromPublicKey proposer.pubkey
    bailIf (derived ≠ header.proposer)
      (.proposerMismatch (displayAddress header.proposer) (displayAddress derived))
    let _ ← (header.verifySignature o.checks proposer.pubkey).mapError
      (.invalidProposerSignature header.height)

def verifyAndAppendHeader (header : BlockHeader) (signatures : List ValidatorSignature)
    (hotstuffMeta : Option (ℕ × ℕ)) (currentTime : ℕ) :
    Except NanoError (Hash × NanoLightClient o) := do
  (header.validateMainnet currentTime).mapError (.validationFailed header.height)
  bailIf (header.chainId ≠ c.config.chainId)
    (.chainIdMismatch header.height c.config.chainId header.chainId)
  c.checkLinkage header
  bailIf (satAdd64 currentTime c.config.maxTimestampDriftSecs < header.timestamp)
    (.futureTimestamp header.height header.timestamp currentTime c.config.maxTimestampDriftSecs)
  c.checkProposer header
  let blockHash ← (o.checks.headerHash header).mapError .crypto
  c.epochManager.verifyQuorumSignatures blockHash header.height signatures hotstuffMeta
  return (blockHash, c.record header)

/-! ### Gap recovery -/

/-- The checks before anything is changed: the claim of a proof (state root, block hash and
height) agrees with the last boundary header. -/
def corroborate (o : ClientOracles) (handoverChain : List EpochHandoverCertificate)
    (zkProofMeta : Option (Hash × Hash × ℕ)) : Except NanoError Unit :=
  match handoverChain.getLast?, zkProofMeta with
  | none, _ => .error (.gapRecovery
      "handover chain cannot be empty; handover corroboration is mandatory")
  | some _, none => .ok ()
  | some lastCert, some (zkTargetRoot, zkBlockHash, zkHeight) => do
    let header := lastCert.boundaryHeader
    let boundaryHash ← (o.checks.headerHash header).mapError NanoError.crypto
    let height := header.height
    bailIf (height ≠ zkHeight) (NanoError.gapRecovery
      s!"ZK proof height {zkHeight} does not corroborate handover boundary height {height}")
    let claimedRoot := hex32 zkTargetRoot
    let root := hex32 header.stateRoot
    bailIf (header.stateRoot ≠ zkTargetRoot) (NanoError.gapRecovery
      (s!"ZK proof target root 0x{claimedRoot} does not corroborate handover state root " ++
        s!"0x{root}"))
    let claimedHash := hex32 zkBlockHash
    let hash := hex32 boundaryHash
    bailIf (boundaryHash ≠ zkBlockHash) (NanoError.gapRecovery
      (s!"ZK proof block hash 0x{claimedHash} does not corroborate handover header hash " ++
        s!"0x{hash}"))

/-- The certificates one after the other; each one that is accepted stays in effect. -/
def applyHandovers (currentTime : ℕ) :
    NanoLightClient o → List EpochHandoverCertificate →
      Except NanoError Unit × NanoLightClient o
  | c, [] => (.ok (), c)
  | c, cert :: rest =>
    match c.epochManager.verifyAndApplyHandover cert currentTime with
    | .error e => (.error e, c)
    | .ok next =>
      applyHandovers currentTime ({ c with epochManager := next }.record cert.boundaryHeader) rest

def handleGapSync (handoverChain : List EpochHandoverCertificate)
    (zkProofMeta : Option (Hash × Hash × ℕ)) (currentTime : ℕ) :
    Except NanoError Unit × NanoLightClient o :=
  match corroborate o handoverChain zkProofMeta with
  | .error e => (.error e, c)
  | .ok () => applyHandovers currentTime c handoverChain

/-! ### Runs -/

inductive Call where
  | append (header : BlockHeader) (signatures : List ValidatorSignature)
      (hotstuffMeta : Option (ℕ × ℕ)) (currentTime : ℕ)
  | gapSync (handoverChain : List EpochHandoverCertificate)
      (zkProofMeta : Option (Hash × Hash × ℕ)) (currentTime : ℕ)

def step : Call → Except NanoError Unit × NanoLightClient o
  | .append header signatures hotstuffMeta currentTime =>
    match c.verifyAndAppendHeader header signatures hotstuffMeta currentTime with
    | .error e => (.error e, c)
    | .ok (_, c') => (.ok (), c')
  | .gapSync handoverChain zkProofMeta currentTime =>
    c.handleGapSync handoverChain zkProofMeta currentTime

/-- The boundary headers of the certificates that take effect. -/
def appliedHeaders (currentTime : ℕ) :
    EpochSyncManager o → List EpochHandoverCertificate → List BlockHeader
  | _, [] => []
  | m, cert :: rest =>
    match m.verifyAndApplyHandover cert currentTime with
    | .error _ => []
    | .ok next => cert.boundaryHeader :: appliedHeaders currentTime next rest

def acceptedBy : Call → List BlockHeader
  | .append header signatures hotstuffMeta currentTime =>
    match c.verifyAndAppendHeader header signatures hotstuffMeta currentTime with
    | .error _ => []
    | .ok _ => [header]
  | .gapSync handoverChain zkProofMeta currentTime =>
    match corroborate o handoverChain zkProofMeta with
    | .error _ => []
    | .ok () => appliedHeaders currentTime c.epochManager handoverChain

def accepted : NanoLightClient o → List Call → List BlockHeader
  | _, [] => []
  | c, call :: rest => c.acceptedBy call ++ accepted (c.step call).2 rest

/-! ### One chain -/

section Chain

variable {c}

/-- The hash under which a header is linked, if it can be computed. -/
def hashOf (o : ClientOracles) (header : BlockHeader) : Option Hash :=
  (o.checks.headerHash header).toOption

/-- `b` is `a` or descends from it, at no lower height. -/
abbrev HeaderExtends (o : ClientOracles) : BlockHeader → BlockHeader → Prop :=
  Extends (hashOf o) BlockHeader.parentHash BlockHeader.height

/-- The headers lie on one hash-linked chain, in this order. -/
abbrev OneChain (o : ClientOracles) : List BlockHeader → Prop :=
  OnOneChain (hashOf o) BlockHeader.parentHash BlockHeader.height

lemma append_ok {header : BlockHeader} {signatures : List ValidatorSignature}
    {hotstuffMeta : Option (ℕ × ℕ)} {currentTime : ℕ} {r : Hash × NanoLightClient o}
    (h : c.verifyAndAppendHeader header signatures hotstuffMeta currentTime = .ok r) :
    r.2 = c.record header ∧ o.checks.headerHash header = .ok r.1 ∧
      c.checkLinkage header = .ok () ∧
      c.epochManager.verifyQuorumSignatures r.1 header.height signatures hotstuffMeta =
        .ok () := by
  simp only [verifyAndAppendHeader, bind_ok, exists_unit, bailIf_ok, mapError_eq_ok, pure_ok] at h
  obtain ⟨-, -, hlink, -, -, hash, hhash, hquorum, rfl⟩ := h
  exact ⟨rfl, hhash, hlink, hquorum⟩

/-- A log of accepted headers that ends with the verified head. -/
structure Follows (c : NanoLightClient o) (log : List BlockHeader) : Prop where
  chain : OneChain o log
  head : log.getLast? = c.latestVerifiedHeader
  range : ∀ h ∈ log, h.height ≤ u64Max

lemma follows_head (h : ∀ head, c.latestVerifiedHeader = some head → head.height ≤ u64Max) :
    c.Follows c.latestVerifiedHeader.toList := by
  cases hhead : c.latestVerifiedHeader with
  | none => exact ⟨List.Pairwise.nil, hhead.symm, by simp⟩
  | some head =>
    refine ⟨List.pairwise_singleton _ _, hhead.symm, fun x hx => ?_⟩
    obtain rfl := List.mem_singleton.1 hx
    exact h x hhead

lemma Follows.snoc {log : List BlockHeader} (h : c.Follows log) {c' : NanoLightClient o}
    {header : BlockHeader} (hhead : c'.latestVerifiedHeader = some header)
    (hext : ∀ head, c.latestVerifiedHeader = some head → HeaderExtends o head header)
    (hrange : header.height ≤ u64Max) : c'.Follows (log ++ [header]) where
  chain := OnOneChain.snoc h.chain fun a ha => hext a (h.head ▸ ha)
  head := by rw [List.getLast?_concat, hhead]
  range x hx := by
    rcases List.mem_append.1 hx with hx | hx
    · exact h.range x hx
    · obtain rfl := List.mem_singleton.1 hx
      exact hrange

lemma Follows.currentHeight_le {log more : List BlockHeader} (h : c.Follows log)
    {c' : NanoLightClient o} (h' : c'.Follows (log ++ more)) :
    c.currentHeight ≤ c'.currentHeight := by
  cases hhead : c.latestVerifiedHeader with
  | none => simp [currentHeight, hhead]
  | some head =>
    have hmem : head ∈ log := List.mem_of_getLast? (h.head.trans hhead)
    cases hmore : more.getLast? with
    | none =>
      obtain rfl := List.getLast?_eq_none_iff.1 hmore
      have hsame : c'.latestVerifiedHeader = some head := by
        rw [← h'.head, List.append_nil, h.head, hhead]
      simp [currentHeight, hhead, hsame]
    | some last =>
      have hlast : c'.latestVerifiedHeader = some last := by
        rw [← h'.head, List.getLast?_append, hmore, Option.some_or]
      have hext := (List.pairwise_append.1 h'.chain).2.2 head hmem last (List.mem_of_getLast? hmore)
      simpa [currentHeight, hhead, hlast] using hext.2

end Chain

/-! ### Careful runs -/

section Careful

def RefusesFirst (m : EpochSyncManager o) (currentTime : ℕ) :
    List EpochHandoverCertificate → Prop
  | [] => True
  | cert :: _ => ∀ next, m.verifyAndApplyHandover cert currentTime ≠ .ok next

def VerifiesAll (currentTime : ℕ) :
    EpochSyncManager o → List EpochHandoverCertificate → Prop
  | _, [] => True
  | m, cert :: rest => ∃ next, m.verifyAndApplyHandover cert currentTime = .ok next ∧
    VerifiesAll currentTime next rest

/-- Each header extends the one before it, and the first one the verified head. -/
def ExtendsAll (o : ClientOracles) : Option BlockHeader → List BlockHeader → Prop
  | _, [] => True
  | head, header :: rest =>
    (∀ p, head = some p → HeaderExtends o p header) ∧ ExtendsAll o (some header) rest

/-- What is asked of a call: certificates take effect together or not at all, and their boundary
headers continue the verified chain. -/
def CarefulCall (c : NanoLightClient o) : Call → Prop
  | .append _ _ _ _ => True
  | .gapSync handoverChain zkProofMeta currentTime =>
    corroborate o handoverChain zkProofMeta ≠ .ok () ∨
      RefusesFirst c.epochManager currentTime handoverChain ∨
      VerifiesAll currentTime c.epochManager handoverChain ∧
        ExtendsAll o c.latestVerifiedHeader
          (handoverChain.map EpochHandoverCertificate.boundaryHeader)

/-- Every call of a run is careful where it happens. -/
def Careful : NanoLightClient o → List Call → Prop
  | _, [] => True
  | c, call :: rest => c.CarefulCall call ∧ Careful (c.step call).2 rest

/-- Heights are `u64` values. -/
def Call.InRange : Call → Prop
  | .append header _ _ _ => header.height ≤ u64Max
  | .gapSync handoverChain _ _ => ∀ cert ∈ handoverChain, cert.boundaryHeader.height ≤ u64Max

/-- No call lowers the verified height, and one that fails leaves the epoch, the validator set
and the verified head as they were. -/
def KeepsGround : NanoLightClient o → List Call → Prop
  | _, [] => True
  | c, call :: rest =>
    c.currentHeight ≤ (c.step call).2.currentHeight ∧
      (∀ e, (c.step call).1 = .error e → (c.step call).2.epochManager = c.epochManager ∧
        (c.step call).2.latestVerifiedHeader = c.latestVerifiedHeader) ∧
      KeepsGround (c.step call).2 rest

variable {c} {log : List BlockHeader} {currentTime : ℕ}

variable {calls : List Call} {chain : List EpochHandoverCertificate}

lemma follows_applyHandovers
    (hlog : c.Follows log) (hverifies : VerifiesAll currentTime c.epochManager chain)
    (hextends : ExtendsAll o c.latestVerifiedHeader
      (chain.map EpochHandoverCertificate.boundaryHeader))
    (hrange : ∀ cert ∈ chain, cert.boundaryHeader.height ≤ u64Max) :
    (applyHandovers currentTime c chain).1 = .ok () ∧
      (applyHandovers currentTime c chain).2.Follows
        (log ++ appliedHeaders currentTime c.epochManager chain) := by
  induction chain generalizing c log with
  | nil => exact ⟨rfl, by simpa [applyHandovers, appliedHeaders] using hlog⟩
  | cons cert rest ih =>
    obtain ⟨next, hnext, hrest⟩ := hverifies
    obtain ⟨hfirst, hmore⟩ := hextends
    obtain ⟨hcert, hrange⟩ := List.forall_mem_cons.1 hrange
    have hstep : ({ c with epochManager := next }.record cert.boundaryHeader).Follows
        (log ++ [cert.boundaryHeader]) := hlog.snoc rfl hfirst hcert
    rw [applyHandovers, appliedHeaders, hnext]
    dsimp only
    rw [← List.singleton_append, ← List.append_assoc]
    exact ih hstep hrest hmore hrange

lemma applyHandovers_of_refused (h : RefusesFirst c.epochManager currentTime chain) :
    (applyHandovers currentTime c chain).2 = c ∧
      appliedHeaders currentTime c.epochManager chain = [] := by
  cases chain with
  | nil => exact ⟨rfl, rfl⟩
  | cons cert rest =>
    rw [applyHandovers, appliedHeaders]
    cases hcert : c.epochManager.verifyAndApplyHandover cert currentTime with
    | error e => exact ⟨rfl, rfl⟩
    | ok next => exact absurd hcert (h next)

lemma follows_step {call : Call} (hlog : c.Follows log) (hcareful : c.CarefulCall call)
    (hrange : call.InRange) :
    (c.step call).2.Follows (log ++ c.acceptedBy call) ∧
      ∀ e, (c.step call).1 = .error e → (c.step call).2 = c := by
  cases call with
  | append header signatures hotstuffMeta currentTime =>
    rw [step, acceptedBy]
    cases hrun : c.verifyAndAppendHeader header signatures hotstuffMeta currentTime with
    | error e => exact ⟨by simpa using hlog, fun _ _ => rfl⟩
    | ok r =>
      obtain ⟨hstate, -, hlinkage, -⟩ := append_ok hrun
      refine ⟨hlog.snoc ?_ (fun head hhead => ?_) hrange, nofun⟩
      · rw [hstate]
        rfl
      · -- an appended header is a child of the verified head
        simp only [checkLinkage, hhead, bind_ok, exists_unit, bailIf_ok, not_not,
          mapError_eq_ok] at hlinkage
        obtain ⟨hheight, hash, hhash, hlink, -⟩ := hlinkage
        have hchild : Child (hashOf o) BlockHeader.parentHash head header := by
          rw [Child, hashOf, hhash, hlink]
          rfl
        have hhead := hlog.range head (List.mem_of_getLast? (hlog.head.trans hhead))
        refine ⟨hchild.descends, ?_⟩
        rw [hheight, satAdd64]
        omega
  | gapSync chain zkProofMeta currentTime =>
    rw [step, acceptedBy, handleGapSync]
    cases hcheck : corroborate o chain zkProofMeta with
    | error e => exact ⟨by simpa using hlog, fun _ _ => rfl⟩
    | ok u =>
      rcases hcareful with hrefused | hrefused | ⟨hverifies, hextends⟩
      · exact absurd hcheck hrefused
      · obtain ⟨hsame, hnone⟩ := applyHandovers_of_refused hrefused
        rw [hnone, hsame]
        exact ⟨by simpa using hlog, fun _ _ => rfl⟩
      · obtain ⟨hok, hfollows⟩ := follows_applyHandovers hlog hverifies hextends hrange
        refine ⟨hfollows, fun e he => ?_⟩
        rw [hok] at he
        cases he

lemma follows_run (hlog : c.Follows log) (hcareful : Careful c calls)
    (hrange : ∀ call ∈ calls, call.InRange) :
    KeepsGround c calls ∧ OneChain o (log ++ accepted c calls) := by
  induction calls generalizing c log with
  | nil => exact ⟨trivial, by simpa [accepted] using hlog.chain⟩
  | cons call rest ih =>
    obtain ⟨hcall, hrest⟩ := hcareful
    obtain ⟨hin, hrange⟩ := List.forall_mem_cons.1 hrange
    obtain ⟨hnext, hfail⟩ := follows_step hlog hcall hin
    obtain ⟨hkeeps, hchain⟩ := ih hnext hrest hrange
    refine ⟨⟨hlog.currentHeight_le hnext, fun e he => ?_, hkeeps⟩, ?_⟩
    · rw [hfail e he]
      exact ⟨rfl, rfl⟩
    · rwa [accepted, ← List.append_assoc]

/-- In every run of careful calls the verified height never goes down, a call that fails leaves
the epoch, the set and the head alone, and the accepted headers continue the verified head on
one chain. -/
theorem careful_run_safe (hhead : ∀ head, c.latestVerifiedHeader = some head → head.height ≤ u64Max)
    (hcareful : Careful c calls) (hrange : ∀ call ∈ calls, call.InRange) :
    KeepsGround c calls ∧ OneChain o (c.latestVerifiedHeader.toList ++ accepted c calls) :=
  follows_run (follows_head hhead) hcareful hrange

end Careful

/-! ### Checkpoints -/

section Checkpoint

variable {c}

/-- A call of `verify_and_append_header`. -/
def Call.IsAppend : Call → Prop
  | .append _ _ _ _ => True
  | .gapSync _ _ _ => False

lemma careful_of_appends {calls : List Call} (h : ∀ call ∈ calls, call.IsAppend) :
    Careful c calls := by
  induction calls generalizing c with
  | nil => trivial
  | cons call rest ih =>
    obtain ⟨hcall, hrest⟩ := List.forall_mem_cons.1 h
    refine ⟨?_, ih hrest⟩
    cases call with
    | append _ _ _ _ => trivial
    | gapSync _ _ _ => exact hcall.elim

variable {checkpoint : WeakSubjectivityCheckpoint} {config : NanoLightConfig}
  {currentTime maxUnbondingSecs : ℕ}

lemma fromCheckpoint_head
    (h : fromCheckpoint checkpoint config currentTime maxUnbondingSecs = .ok c) :
    c.latestVerifiedHeader = none := by
  simp only [fromCheckpoint, bind_ok, pure_ok] at h
  obtain ⟨-, -, m, -, rfl⟩ := h
  rfl

/-- The header descends from the block of the checkpoint and is above it. -/
def AboveCheckpoint (o : ClientOracles) (checkpoint : WeakSubjectivityCheckpoint)
    (header : BlockHeader) : Prop :=
  Above (hashOf o) BlockHeader.parentHash checkpoint.blockHash header ∧
    checkpoint.height < header.height

/-- Every header that a client of a checkpoint accepts is a descendant of the checkpoint's block
above its height, if and only if the first one is. -/
theorem checkpoint_descendants_iff
        (h : fromCheckpoint checkpoint config currentTime maxUnbondingSecs = .ok c)
    {calls : List Call} (happend : ∀ call ∈ calls, call.IsAppend)
    (hrange : ∀ call ∈ calls, call.InRange) :
    (∀ header ∈ accepted c calls, AboveCheckpoint o checkpoint header) ↔
      ∀ first, (accepted c calls).head? = some first → AboveCheckpoint o checkpoint first := by
  have hnone := fromCheckpoint_head h
  have hhead : ∀ head, c.latestVerifiedHeader = some head → head.height ≤ u64Max := by
    simp [hnone]
  have hchain := (careful_run_safe hhead (careful_of_appends happend) hrange).2
  rw [hnone, Option.toList_none, List.nil_append] at hchain
  exact hchain.above_iff

end Checkpoint

/-! ### Toy runs -/

def toyClient : NanoLightClient toyOracles := ⟨toyManager, [], none, ⟨[], 128, 5, 13689⟩⟩

def toyAppend (header : BlockHeader) : Call := .append header (toyVotes header) (some (3, 2)) 1704067300

lemma parentHash_le_of_descends {a b : BlockHeader}
    (h : Descends (hashOf toyOracles) BlockHeader.parentHash a b) :
    a.parentHash ≤ b.parentHash := by
  induction h with
  | refl => exact le_rfl
  | @tail p d _ hchild ih =>
    have hhash : toyHash p.parentHash p.timestamp = d.parentHash := Option.some.inj hchild
    calc a.parentHash ≤ p.parentHash := ih
      _ ≤ Nat.pair p.parentHash p.timestamp := Nat.left_le_pair _ _
      _ ≤ toyHash p.parentHash p.timestamp := Nat.le_succ _
      _ = d.parentHash := hhash

def fifthHeader : BlockHeader := toyHeader 5 900 1704067205 0

def sixthHeader : BlockHeader := toyHeader 6 (toyHash 900 1704067205) 1704067206 0

def straySecond : BlockHeader := toyHeader 2 7 1704067210 0

/-- A header and a handover at its child. -/
theorem careful_append_and_handover :
    let calls := [toyAppend fifthHeader,
      .gapSync [toyCertificate 0 sixthHeader [.sample 2 1]] none 1704067300]
    KeepsGround toyClient calls ∧ accepted toyClient calls = [fifthHeader, sixthHeader] ∧
      OneChain toyOracles
        (toyClient.latestVerifiedHeader.toList ++ accepted toyClient calls) := by
  intro calls
  have hset : toyHandover (toyCertificate 0 sixthHeader [.sample 2 1]) = .ok [.sample 2 1] := by
    decide +kernel
  have hfifth : (toyClient.step (toyAppend fifthHeader)).2.latestVerifiedHeader =
      some fifthHeader := by decide +kernel
  have hmanager : (toyClient.step (toyAppend fifthHeader)).2.epochManager = toyManager := by
    rw [toyAppend, step]
    split
    · rfl
    · next hrun =>
      rw [(append_ok hrun).1]
      rfl
  have hchild : Child (hashOf toyOracles) BlockHeader.parentHash fifthHeader sixthHeader := rfl
  have hcareful : Careful toyClient calls := by
    refine ⟨trivial, .inr (.inr ⟨?_, ?_⟩), trivial⟩
    · rw [hmanager]
      unfold toyHandover at hset
      rcases hnext : toyManager.verifyAndApplyHandover
          (toyCertificate 0 sixthHeader [.sample 2 1]) 1704067300 with e | next
      · rw [hnext] at hset
        cases hset
      · exact ⟨next, hnext, trivial⟩
    · rw [hfifth]
      refine ⟨fun p hp => ?_, trivial⟩
      obtain rfl := Option.some.inj hp
      exact ⟨hchild.descends, by decide⟩
  have hrange : ∀ call ∈ calls, call.InRange := by
    simp [calls, toyAppend, Call.InRange, toyCertificate, fifthHeader, sixthHeader, toyHeader,
      BlockHeader.sample, u64Max]
  obtain ⟨hkeeps, hchain⟩ := careful_run_safe (by simp [toyClient]) hcareful hrange
  exact ⟨hkeeps, by decide +kernel, hchain⟩

/-- A handover at an unrelated header takes the client from height five to height two; a chain
whose second certificate is refused fails and leaves the first one in effect. -/
theorem gap_sync_loses_ground : let c := (toyClient.step (toyAppend fifthHeader)).2
    let back : Call := .gapSync [toyCertificate 0 straySecond [.sample 2 1]] none 1704067300
    let half : Call := .gapSync [toyCertificate 0 straySecond [.sample 2 1],
      toyCertificate 0 straySecond [.sample 2 1]] none 1704067300
    c.currentHeight = 5 ∧ (c.step back).1 = .ok () ∧ (c.step back).2.currentHeight = 2 ∧
      accepted toyClient [toyAppend fifthHeader, back] = [fifthHeader, straySecond] ∧
      ¬ Descends (hashOf toyOracles) BlockHeader.parentHash fifthHeader straySecond ∧
      (c.step half).1 ≠ .ok () ∧ c.epochManager.currentEpoch = 0 ∧
      (c.step half).2.epochManager.currentEpoch = 1 ∧
      (c.step half).2.latestVerifiedHeader = some straySecond := by
  refine ⟨by decide +kernel, by decide +kernel, by decide +kernel, by decide +kernel, ?_,
    by decide +kernel, by decide +kernel, by decide +kernel, by decide +kernel⟩
  intro h
  exact absurd (parentHash_le_of_descends h) (by decide)

def toyCheckpoint (height blockHash : ℕ) : WeakSubjectivityCheckpoint where
  epoch := 0
  height := height
  blockHash := blockHash
  stateRoot := 0
  validatorSet := [.sample 1 1]
  timestamp := 1704067200
  chainId := 13689

lemma fromCheckpoint_toyCheckpoint (height blockHash : ℕ) :
    fromCheckpoint (toyCheckpoint height blockHash) ⟨[], 128, 5, 13689⟩ 1704067300 1000 =
      .ok toyClient := by
  have hnew : EpochSyncManager.new toyOracles 0 [.sample 1 1] = .ok toyManager :=
    EpochSyncManager.new_self (m := toyManager)
  simp [fromCheckpoint, EpochSyncManager.verifyAndApplyCheckpoint, toyCheckpoint, hnew, bailIf,
    chainIdMainnet, satAdd64, u64Max, toyClient, bind, Except.bind, pure, Except.pure]

/-- Two headers on top of a checkpoint. -/
theorem checkpoint_descendants_of_child :
    (accepted toyClient [toyAppend fifthHeader, toyAppend sixthHeader]).head? =
      some fifthHeader ∧
    ∀ header ∈ accepted toyClient [toyAppend fifthHeader, toyAppend sixthHeader],
      AboveCheckpoint toyOracles (toyCheckpoint 4 900) header := by
  have happend : ∀ call ∈ [toyAppend fifthHeader, toyAppend sixthHeader], Call.IsAppend call := by
    simp [toyAppend, Call.IsAppend]
  have hrange : ∀ call ∈ [toyAppend fifthHeader, toyAppend sixthHeader], Call.InRange call := by
    simp [toyAppend, Call.InRange, fifthHeader, sixthHeader, toyHeader, BlockHeader.sample, u64Max]
  have hhead : (accepted toyClient [toyAppend fifthHeader, toyAppend sixthHeader]).head? =
      some fifthHeader := by decide +kernel
  refine ⟨hhead, (checkpoint_descendants_iff (fromCheckpoint_toyCheckpoint 4 900) happend
    hrange).2 ?_⟩
  intro first hfirst
  obtain rfl := Option.some.inj (hhead.symm.trans hfirst)
  exact ⟨⟨fifthHeader, rfl, Relation.ReflTransGen.refl⟩, by decide⟩

/-- A client of a checkpoint at height 100 accepts a header of height five on a branch without
the checkpoint. -/
theorem checkpoint_forgotten :
    fromCheckpoint (toyCheckpoint 100 1000000) ⟨[], 128, 5, 13689⟩ 1704067300 1000 =
        .ok toyClient ∧
      accepted toyClient [toyAppend fifthHeader] = [fifthHeader] ∧
      ¬ Above (hashOf toyOracles) BlockHeader.parentHash
        (toyCheckpoint 100 1000000).blockHash fifthHeader ∧
      ¬ (toyCheckpoint 100 1000000).height < fifthHeader.height := by
  refine ⟨fromCheckpoint_toyCheckpoint _ _, by decide +kernel, ?_, by decide⟩
  rintro ⟨a, ha, hdesc⟩
  have hle := parentHash_le_of_descends hdesc
  rw [ha] at hle
  exact absurd hle (by decide)

end NanoLightClient

end Sxiaum.Nano
