import Sxiaum.Block
import Sxiaum.State.VerkleProof
import Sxiaum.Zk.StfCheckers

/-!
# Witnesses of blocks

How a block and the traces of its execution become a witness (`build_block_witness` in
`zk/src/lib.rs`, `from_block` in `sp1/stf.rs`), and which witnesses pass
`verify_stf_constraints`. Serialization and the transaction hash are fields of `WitnessEnv`.
-/

namespace Sxiaum.Zk

open Guards StfOracles State

/-! ### Data -/

/-- What the construction reads of an `ExecutionTrace`. -/
structure ExecutionTrace where
  program : List UInt8
  stateReads : List StfStateAccess
  stateWrites : List StfStateAccess
  accessedAccountProofs : List VerkleProof
  gasUsed : UInt64
  /-- The gas of the `transaction_output`, if there is one. -/
  outputGasUsed : Option UInt64

structure Sp1ExecutionTrace where
  program : List UInt8
  witnessInput : List UInt8
  executionTrace : List UInt8
  publicInputs : List UInt8

structure ZkBlockWitness where
  trace : Sp1ExecutionTrace
  publicInputs : ZkPublicInputs

/-- The functions of other crates, the loaded guest program, and whether the node runs in
production. -/
structure WitnessEnv where
  oracles : StfOracles
  tryHash : Transaction → Except String Hash
  encode : StfPrivateInputs → Except String (List UInt8)
  decode : List UInt8 → Except String StfPrivateInputs
  proverProgram : List UInt8
  isProduction : Bool

def defaultMaxBlockGas : UInt64 := 30000000

def toBytes32 (h : Hash) : Bytes32 := BitVec.ofNat 256 h

/-! ### Transactions -/

section Build

variable (env : WitnessEnv)

def buildTxWitness (tx : Transaction) (gasUsed : UInt64) (revealNonce : Bytes32) :
    Except String StfTxWitness := do
  let txHash ← env.tryHash tx
  let common : StfTxWitness := {
    txHash := toBytes32 txHash
    fromAddr := toBytes32 tx.fromAddr
    nonce := UInt64.ofNat tx.nonce
    gasLimit := UInt64.ofNat tx.gasLimit
    gasUsed := gasUsed
    pubkey := toBytes32 (tx.signerPubkey.getD 0)
    signature := BitVec.ofNat 512 (tx.signature.getD 0)
    signedMessage := toBytes32 txHash
    scheme := 0
    revealNonce := revealNonce }
  if tx.ethereumYParity.isSome ∨ tx.ethereumSighash.isSome then
    match tx.ethereumSighash with
    | none => throw "ethereum tx missing sighash for STF witness"
    | some sighash => return { common with signedMessage := toBytes32 sighash, scheme := 1 }
  else do
    bailIf tx.signerPubkey.isNone "tx missing signer_pubkey for STF witness"
    bailIf tx.signature.isNone "tx missing signature for STF witness"
    return common

def buildTxWitnesses : List ((Transaction × UInt64) × Bytes32) → Except String (List StfTxWitness)
  | [] => .ok []
  | ((tx, gasUsed), revealNonce) :: rest => do
    let witness ← buildTxWitness env tx gasUsed revealNonce
    let witnesses ← buildTxWitnesses rest
    return witness :: witnesses

variable (block : Block) (stateRootBefore : Bytes32)

def fromBlock (gasUsedPerTx : List UInt64)
    (stateReads stateWrites : List StfStateAccess) (verkleProofs : List StfVerkleProof)
    (commitRevealDigests revealNonces : List Bytes32) (maxBlockGas : UInt64)
    (publicInputs : ZkPublicInputs) : Except String StfPrivateInputs := do
  let txCount := block.body.transactions.length
  let gasCount := gasUsedPerTx.length
  let nonceCount := revealNonces.length
  bailIf (txCount ≠ gasCount) s!"gas_used_per_tx length {gasCount} != tx count {txCount}"
  bailIf (txCount ≠ nonceCount) s!"reveal_nonces length {nonceCount} != tx count {txCount}"
  let transactions ←
    buildTxWitnesses env ((block.body.transactions.zip gasUsedPerTx).zip revealNonces)
  let inputs : StfPrivateInputs := {
    version := stfCircuitVersion
    maxBlockGas := maxBlockGas
    transactions := transactions
    stateReads := stateReads
    stateWrites := stateWrites
    verkleProofs := verkleProofs
    commitRevealDigests := commitRevealDigests
    binding := 0 }
  return { inputs with binding := env.oracles.computeBinding publicInputs inputs }

/-! ### Constraints -/

def verifyStfConstraints (witness : ZkBlockWitness) : Except String Unit :=
  let x := witness.publicInputs
  if witness.trace.witnessInput = [] then
    bailIf (x.stateRootBefore ≠ x.stateRootAfter) "empty STF witness cannot change state root"
  else do
    bailIf (witness.trace.publicInputs ≠ [] ∧ witness.trace.publicInputs ≠ x.encode)
      "trace.public_inputs mismatch with envelope"
    let inputs ← env.decode witness.trace.witnessInput
    Host.verifyStfPrivate env.oracles env.isProduction x inputs

/-! ### Blocks -/

def stfVerkleProof (proof : VerkleProof) : StfVerkleProof where
  commitments := proof.commitments.map toBytes32
  evaluationPoints := proof.path.map fun i => BitVec.ofNat 256 (i % 2 ^ 64)
  evaluations := ((proof.commitments.drop 1) ++ [proof.values.getLast?.getD 0]).map toBytes32
  openingProofs := proof.openings
  witnessRoot := 0

def captureExecutionTrace (witnessInput : List UInt8) : Except String (List UInt8) := do
  bailIf (env.proverProgram = []) "cannot capture execution trace without a loaded program"
  return (env.oracles.sha256 ("sp1:trace".toUTF8.toList ++ env.proverProgram ++ witnessInput)).bytes

def blockPublicInputs (witnessRoot : Bytes32) : ZkPublicInputs where
  chainId := UInt64.ofNat block.header.chainId
  protocolVersion := UInt32.ofNat block.header.version
  circuitVersion := stfCircuitVersion
  genesisHash := 0
  blockHeight := UInt64.ofNat block.header.height
  parentHash := toBytes32 block.header.parentHash
  stateRootBefore := stateRootBefore
  stateRootAfter := toBytes32 block.header.stateRoot
  txRoot := toBytes32 block.header.txRoot
  receiptsRoot := toBytes32 block.header.receiptsRoot
  witnessRoot := witnessRoot
  beaconRandomness := toBytes32 block.header.randomnessBeacon

def buildBlockWitness (executionTraces : List ExecutionTrace) : Except String ZkBlockWitness := do
  let txCount := block.body.transactions.length
  let traceCount := executionTraces.length
  bailIf (txCount ≠ traceCount) s!"transaction/trace count mismatch ({txCount} vs {traceCount})"
  let gasUsedPerTx := executionTraces.map fun t => t.outputGasUsed.getD t.gasUsed
  let stateReads := executionTraces.flatMap (·.stateReads)
  let stateWrites := executionTraces.flatMap (·.stateWrites)
  let verkleProofs :=
    executionTraces.flatMap fun t => t.accessedAccountProofs.map stfVerkleProof
  let witnessRoot := env.oracles.computeVerkleCommitment verkleProofs
  let publicInputs := blockPublicInputs block stateRootBefore witnessRoot
  -- no commit-reveal digests and no reveal nonces
  let inputs ← fromBlock env block gasUsedPerTx stateReads stateWrites verkleProofs [] []
    defaultMaxBlockGas publicInputs
  let program := (executionTraces.head?.map (·.program)).getD env.proverProgram
  let bytes ← env.encode inputs
  let executionTrace ← captureExecutionTrace env bytes
  let witness : ZkBlockWitness := {
    trace := {
      program := program
      witnessInput := bytes
      executionTrace := executionTrace
      publicInputs := publicInputs.encode }
    publicInputs := publicInputs }
  verifyStfConstraints env witness
  return witness

end Build

/-! ### Which blocks get a witness -/

/-- Serialization of these inputs succeeds and is undone by deserialization. -/
def WitnessEnv.RoundTrips (env : WitnessEnv) (inputs : StfPrivateInputs) : Prop :=
  ∃ bytes, env.encode inputs = .ok bytes ∧ env.decode bytes = .ok inputs

def emptyInputs (o : StfOracles) (x : ZkPublicInputs) : StfPrivateInputs :=
  let inputs : StfPrivateInputs := {
    version := stfCircuitVersion
    maxBlockGas := defaultMaxBlockGas
    transactions := []
    stateReads := []
    stateWrites := []
    verkleProofs := []
    commitRevealDigests := []
    binding := 0 }
  { inputs with binding := o.computeBinding x inputs }

def emptyPublicInputs (o : StfOracles) (block : Block) (stateRootBefore : Bytes32) :
    ZkPublicInputs :=
  blockPublicInputs block stateRootBefore (o.computeVerkleCommitment [])

section

variable {env : WitnessEnv} {block : Block} {stateRootBefore : Bytes32}
  {executionTraces : List ExecutionTrace}

lemma emptyInputs_admissible (o : StfOracles) (x : ZkPublicInputs) (width : ℕ) :
    Admissible o x (emptyInputs o x) width ↔ x.stateRootBefore = x.stateRootAfter := by
  constructor
  · intro h
    exact h.roots.1
  · intro hroots
    have hordered : Ordered o x (emptyInputs o x) width := by
      intro i tx htx
      simp [emptyInputs] at htx
    refine ⟨⟨rfl, ?_, ?_, ?_, ?_, ?_⟩, ?_, ?_, ⟨hroots, rfl⟩, hordered, ?_, ?_, ?_, ?_, ?_, rfl⟩
    all_goals simp [emptyInputs, defaultMaxBlockGas, StfPrivateInputs.totalGas]

lemma verifyStfPrivate_emptyInputs (x : ZkPublicInputs) :
    Host.verifyStfPrivate env.oracles env.isProduction x (emptyInputs env.oracles x) = .ok () ↔
      x.stateRootBefore = x.stateRootAfter := by
  -- without Verkle proofs the mode of the node does not matter
  change Host.verifyStfPrivate env.oracles true x (emptyInputs env.oracles x) = .ok () ↔ _
  rw [Host.verifyStfPrivate_ok, emptyInputs_admissible]
  exact and_iff_left ⟨nofun, nofun, fun h => absurd rfl (h.elim id id)⟩

lemma fromBlock_nil (env : WitnessEnv) (h : block.body.transactions = [])
    (x : ZkPublicInputs) : fromBlock env block [] [] [] [] [] [] defaultMaxBlockGas x =
      .ok (emptyInputs env.oracles x) := by
  rw [fromBlock, h]
  rfl

/-- The witness of a block without transactions: the inputs are the empty ones, and what is
left to check are the program and the roots. -/
lemma buildBlockWitness_nil (htxs : block.body.transactions = []) (hround : env.RoundTrips
      (emptyInputs env.oracles (emptyPublicInputs env.oracles block stateRootBefore))) :
    (∃ witness, buildBlockWitness env block stateRootBefore [] = .ok witness ∧
      verifyStfConstraints env witness = .ok ()) ↔
    env.proverProgram ≠ [] ∧ stateRootBefore = toBytes32 block.header.stateRoot := by
  obtain ⟨bytes, hencode, hdecode⟩ := hround
  have hinputs := fromBlock_nil env htxs (emptyPublicInputs env.oracles block stateRootBefore)
  have hcheck : ∀ program trace, verifyStfConstraints env ⟨⟨program, bytes, trace,
      (emptyPublicInputs env.oracles block stateRootBefore).encode⟩,
        emptyPublicInputs env.oracles block stateRootBefore⟩ = .ok () ↔
      stateRootBefore = toBytes32 block.header.stateRoot := by
    intro program trace
    rw [verifyStfConstraints]
    split_ifs with hempty
    · rw [bailIf_ok, not_not]
      rfl
    · simp only [bind_ok, exists_unit, bailIf_ok, hdecode, Except.ok.injEq, exists_eq_left',
        verifyStfPrivate_emptyInputs]
      tauto
  simp only [emptyPublicInputs] at hinputs hencode hcheck
  simp only [buildBlockWitness, captureExecutionTrace, bind_ok, exists_unit, bailIf_ok, pure_ok,
    htxs, List.map_nil, List.flatMap_nil, hinputs, Except.ok.injEq, exists_eq_left', hencode]
  constructor
  · rintro ⟨_, ⟨-, trace, ⟨hprogram, -⟩, hok, rfl⟩, -⟩
    exact ⟨hprogram, (hcheck _ _).1 hok⟩
  · rintro ⟨hprogram, hroots⟩
    have hok := fun trace => (hcheck env.proverProgram trace).2 hroots
    exact ⟨_, ⟨not_not.2 rfl, _, ⟨hprogram, rfl⟩, hok _, rfl⟩, hok _⟩

/-- A witness is made, and passes, exactly for blocks without transactions that leave the
state root alone, given that a guest program is loaded. -/
theorem buildBlockWitness_ok_iff (hcount : block.body.transactions.length = executionTraces.length)
    (hround : env.RoundTrips
      (emptyInputs env.oracles (emptyPublicInputs env.oracles block stateRootBefore))) :
    (∃ witness, buildBlockWitness env block stateRootBefore executionTraces = .ok witness ∧
      verifyStfConstraints env witness = .ok ()) ↔
    block.body.transactions = [] ∧ env.proverProgram ≠ [] ∧
      stateRootBefore = toBytes32 block.header.stateRoot := by
  by_cases htxs : block.body.transactions = []
  · obtain rfl : executionTraces = [] := List.length_eq_zero_iff.1 (hcount ▸ by rw [htxs]; rfl)
    rw [buildBlockWitness_nil htxs hround, and_iff_right htxs]
  · refine iff_of_false ?_ fun h => htxs h.1
    rintro ⟨witness, hbuild, -⟩
    simp only [buildBlockWitness, bind_ok, exists_unit] at hbuild
    obtain ⟨-, inputs, hinputs, -⟩ := hbuild
    simp only [fromBlock, bind_ok, exists_unit, bailIf_ok, not_not] at hinputs
    exact htxs (List.length_eq_zero_iff.1 hinputs.2.1)

end

/-! ### A block with a transaction -/

def toyTransaction : Transaction where
  fromAddr := 1
  toAddr := some 2
  signerPubkey := some 9
  value := 5
  nonce := 0
  gasLimit := 21000
  gasPrice := 1
  data := []
  signature := some 8
  chainId := some chainIdMainnet
  ethereumYParity := none
  ethereumSighash := none
  ethereumTxHash := none
  ethereumRaw := none

def toyBlock (transactions : List Transaction) : Block where
  header := {
    parentHash := 11
    stateRoot := 22
    txRoot := 33
    receiptsRoot := 44
    validatorRoot := 0
    zkProof := none
    height := 5
    timestamp := 100
    proposer := 1
    randomnessBeacon := 66
    version := blockVersionCurrent
    gasLimit := 30000000
    gasUsed := 21000
    extraData := []
    chainId := chainIdMainnet
    signature := none }
  body := { transactions := transactions, receipts := [] }

/-- Serialization that knows the inputs of the empty block. -/
def toyWitnessEnv : WitnessEnv where
  oracles := toyOracles
  tryHash := fun _ => .ok 3
  encode := fun _ => .ok [1]
  decode := fun _ => .ok (emptyInputs toyOracles (emptyPublicInputs toyOracles (toyBlock []) 22))
  proverProgram := [1]
  isProduction := true

def toyTrace : ExecutionTrace where
  program := [1]
  stateReads := []
  stateWrites := []
  accessedAccountProofs := []
  gasUsed := 21000
  outputGasUsed := none

/-- No witness is made of a block with one transaction and its trace. -/
theorem one_transaction_no_witness :
    buildBlockWitness toyWitnessEnv (toyBlock [toyTransaction]) 21 [toyTrace] =
      .error "reveal_nonces length 0 != tx count 1" := by
  rfl

/-- The block without transactions has a witness that passes. -/
theorem empty_block_witness :
    ∃ witness, buildBlockWitness toyWitnessEnv (toyBlock []) 22 [] = .ok witness ∧
      verifyStfConstraints toyWitnessEnv witness = .ok () :=
  (buildBlockWitness_ok_iff rfl ⟨[1], rfl, rfl⟩).2 ⟨rfl, by decide, rfl⟩

end Sxiaum.Zk
