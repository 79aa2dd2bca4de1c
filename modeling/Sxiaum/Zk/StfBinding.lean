import Sxiaum.Lib.PrefixCode
import Sxiaum.Zk.StfCheckers

/-!
# What an accepted witness is bound to

The gas total that both checkers compare with the limit is a wrapping `u64` sum, and it is the
only trace of the transactions in the binding digest. The state accesses and the Verkle proofs
enter the digest behind their lengths, the bytes of the opening proofs do not.
-/

namespace Sxiaum.Zk

open PrefixCode StfOracles
open List (forall_mem_nil)

/-! ### Gas -/

/-- The gas used by the transactions, without the bound of a `u64`. -/
def StfPrivateInputs.exactGas (w : StfPrivateInputs) : ℕ :=
  (w.transactions.map fun t => t.gasUsed.toNat).sum

lemma StfPrivateInputs.toNat_totalGas (w : StfPrivateInputs) :
    w.totalGas.toNat = w.exactGas % 2 ^ 64 := by
  unfold totalGas exactGas
  induction w.transactions with
  | nil => rfl
  | cons t rest ih =>
    rw [List.map_cons, List.sum_cons, List.map_cons, List.sum_cons, UInt64.toNat_add, ih,
      Nat.add_mod_mod]

/-- In an accepted witness the gas is within the limit, and its exact total is what the binding
digest contains, if and only if that total fits in a `u64`. -/
theorem accepted_gas_exact_iff {o : StfOracles} {isProduction : Bool} {x : ZkPublicInputs}
    {w : StfPrivateInputs} (h : Host.verifyStfPrivate o isProduction x w = .ok () ∨
      Guest.verifyStfPrivate o x w = .ok ()) :
    (w.exactGas ≤ w.maxBlockGas.toNat ∧ w.totalGas.toNat = w.exactGas) ↔
      w.exactGas < 2 ^ 64 := by
  have hgas : w.totalGas.toNat ≤ w.maxBlockGas.toNat := by
    rcases h with h | h
    · exact UInt64.le_iff_toNat_le.1 (Host.verifyStfPrivate_ok_iff.1 h).1.totalGas
    · exact UInt64.le_iff_toNat_le.1 (Guest.verifyStfPrivate_ok.1 h).totalGas
  rw [w.toNat_totalGas] at hgas ⊢
  constructor
  · rintro ⟨hle, -⟩
    exact hle.trans_lt w.maxBlockGas.toNat_lt
  · intro hlt
    rw [Nat.mod_eq_of_lt hlt] at hgas ⊢
    exact ⟨hgas, rfl⟩

/-- Both copies accept two transactions that use twenty units of gas. -/
theorem accepted_gas_two_transactions :
    ((toyPrivate [toyTx 2, toyTx 1] []).exactGas ≤
        (toyPrivate [toyTx 2, toyTx 1] []).maxBlockGas.toNat ∧
      (toyPrivate [toyTx 2, toyTx 1] []).totalGas.toNat =
        (toyPrivate [toyTx 2, toyTx 1] []).exactGas) ↔
      (toyPrivate [toyTx 2, toyTx 1] []).exactGas < 2 ^ 64 := by
  have h : Host.verifyStfPrivate toyOracles true toyPublic
      (toyPrivate [toyTx 2, toyTx 1] []) = .ok () := by decide +kernel
  exact accepted_gas_exact_iff (.inl h)

def heavyTx (txHash : Bytes32) : StfTxWitness :=
  { toyTx txHash with gasLimit := 2 ^ 63, gasUsed := 2 ^ 63 }

/-- Two such transactions use no gas for both copies. -/
theorem accepted_gas_wraps :
    Host.verifyStfPrivate toyOracles true toyPublic
        (toyPrivate [heavyTx 2, heavyTx 1] []) = .ok () ∧
      Guest.verifyStfPrivate toyOracles toyPublic (toyPrivate [heavyTx 2, heavyTx 1] []) =
        .ok () ∧
      (toyPrivate [heavyTx 2, heavyTx 1] []).totalGas = 0 ∧
      (toyPrivate [heavyTx 2, heavyTx 1] []).exactGas = 2 ^ 64 ∧
      (toyPrivate [heavyTx 2, heavyTx 1] []).maxBlockGas = 1000 := by
  decide +kernel

/-! ### Bytes -/

lemma length_leBytes (width n : ℕ) : (leBytes width n).length = width := by
  simp [leBytes]

lemma mod_eq_of_leBytes_eq {width n m : ℕ} (h : leBytes width n = leBytes width m) :
    n % 256 ^ width = m % 256 ^ width := by
  have hbyte : ∀ i < width, n / 256 ^ i % 256 = m / 256 ^ i % 256 := by
    intro i hi
    have hmap := List.map_inj_left.1 h i (List.mem_range.2 hi)
    have hnat := congrArg UInt8.toNat hmap
    rwa [UInt8.toNat_ofNat_of_lt' (Nat.mod_lt _ (by decide)),
      UInt8.toNat_ofNat_of_lt' (Nat.mod_lt _ (by decide))] at hnat
  clear h
  induction width with
  | zero => simp [Nat.mod_one]
  | succ width ih =>
    rw [Nat.mod_pow_succ, Nat.mod_pow_succ, ih fun i hi => hbyte i (Nat.lt_succ_of_lt hi),
      hbyte width (Nat.lt_succ_self width)]

lemma readsOff_u64Bytes : ReadsOff (· < 2 ^ 64) u64Bytes := by
  refine .of_length (fun n _ => length_leBytes 8 n) fun n m hn hm h => ?_
  have hlt : n < 256 ^ 8 := hn
  have hlt' : m < 256 ^ 8 := hm
  have hmod := mod_eq_of_leBytes_eq h
  rwa [Nat.mod_eq_of_lt hlt, Nat.mod_eq_of_lt hlt'] at hmod

lemma readsOff_bytes32 : ReadsOff (fun _ => True) Bytes32.bytes := by
  refine .of_length (fun b _ => length_leBytes 32 b.toNat) fun b c _ _ h => ?_
  have hlt : b.toNat < 256 ^ 32 := b.isLt
  have hlt' : c.toNat < 256 ^ 32 := c.isLt
  have hmod := mod_eq_of_leBytes_eq h
  rw [Nat.mod_eq_of_lt hlt, Nat.mod_eq_of_lt hlt'] at hmod
  exact BitVec.eq_of_toNat_eq hmod

/-- Vectors of 32-byte strings behind their length. -/
lemma readsOff_vector : ReadsOff (fun bs : List Bytes32 => bs.length < 2 ^ 64 ∧ ∀ b ∈ bs, True)
    fun bs => u64Bytes bs.length ++ bs.flatMap Bytes32.bytes :=
  readsOff_u64Bytes.counted readsOff_bytes32

/-! ### State accesses and Verkle proofs -/

/-- The lengths of the vectors are machine words, as those of every `Vec` are. -/
def StfStateAccess.Fits (a : StfStateAccess) : Prop :=
  a.key.length < 2 ^ 64 ∧ a.value.length < 2 ^ 64

@[inherit_doc StfStateAccess.Fits]
structure StfVerkleProof.Fits (p : StfVerkleProof) : Prop where
  commitments : p.commitments.length < 2 ^ 64
  points : p.evaluationPoints.length < 2 ^ 64
  evaluations : p.evaluations.length < 2 ^ 64
  proofs : p.openingProofs.length < 2 ^ 64

@[inherit_doc StfStateAccess.Fits]
structure StfPrivateInputs.Fits (w : StfPrivateInputs) : Prop where
  reads : ∀ a ∈ w.stateReads, a.Fits
  writes : ∀ a ∈ w.stateWrites, a.Fits
  proofs : ∀ p ∈ w.verkleProofs, p.Fits

def StfStateAccess.bytes (a : StfStateAccess) : List UInt8 :=
  u64Bytes a.key.length ++ a.key ++ u64Bytes a.value.length ++ a.value

def StfVerkleProof.bytes (p : StfVerkleProof) : List UInt8 :=
  u64Bytes p.commitments.length ++ p.commitments.flatMap Bytes32.bytes ++
    u64Bytes p.evaluationPoints.length ++ p.evaluationPoints.flatMap Bytes32.bytes ++
    u64Bytes p.evaluations.length ++ p.evaluations.flatMap Bytes32.bytes ++
    u64Bytes p.openingProofs.length ++ p.openingProofs.flatten ++ p.witnessRoot.bytes

lemma readsOff_access : ReadsOff StfStateAccess.Fits StfStateAccess.bytes := by
  rintro ⟨key, value⟩ ⟨key', value'⟩ ⟨hkey, hvalue⟩ ⟨hkey', hvalue'⟩ rest rest' h
  have hread := readsOff_u64Bytes.text
  simp only [StfStateAccess.bytes, List.append_assoc] at h
  rw [← List.append_assoc, ← List.append_assoc (u64Bytes key'.length)] at h
  obtain ⟨rfl, hvalues⟩ := hread key key' hkey hkey' _ _ h
  rw [← List.append_assoc, ← List.append_assoc (u64Bytes value'.length)] at hvalues
  obtain ⟨rfl, hrest⟩ := hread value value' hvalue hvalue' _ _ hvalues
  exact ⟨rfl, hrest⟩

/-- The opening proofs stand one after the other without their lengths; with a common length
they can be told apart. -/
lemma readsOff_verkleProof {n : ℕ} :
    ReadsOff (fun p : StfVerkleProof => p.Fits ∧ ∀ proof ∈ p.openingProofs, proof.length = n)
      StfVerkleProof.bytes := by
  have hproofs : ReadsOff (fun proof : List UInt8 => proof.length = n) id :=
    .of_length (fun _ h => h) fun _ _ _ _ h => h
  have htrivial (bs : List Bytes32) : ∀ b ∈ bs, True := fun _ _ => trivial
  rintro ⟨cs, zs, ys, ps, r⟩ ⟨cs', zs', ys', ps', r'⟩ ⟨⟨hcs, hzs, hys, hps⟩, hlength⟩
    ⟨⟨hcs', hzs', hys', hps'⟩, hlength'⟩ rest rest' h
  dsimp only at hcs hzs hys hps hcs' hzs' hys' hps' hlength hlength'
  have hjoin := readsOff_u64Bytes.counted hproofs
  simp only [List.flatMap_id] at hjoin
  simp only [StfVerkleProof.bytes, List.append_assoc] at h
  rw [← List.append_assoc, ← List.append_assoc (u64Bytes cs'.length)] at h
  obtain ⟨rfl, hpoints⟩ := readsOff_vector cs cs' ⟨hcs, htrivial _⟩ ⟨hcs', htrivial _⟩ _ _ h
  rw [← List.append_assoc, ← List.append_assoc (u64Bytes zs'.length)] at hpoints
  obtain ⟨rfl, hvalues⟩ :=
    readsOff_vector zs zs' ⟨hzs, htrivial _⟩ ⟨hzs', htrivial _⟩ _ _ hpoints
  rw [← List.append_assoc, ← List.append_assoc (u64Bytes ys'.length)] at hvalues
  obtain ⟨rfl, hopenings⟩ :=
    readsOff_vector ys ys' ⟨hys, htrivial _⟩ ⟨hys', htrivial _⟩ _ _ hvalues
  rw [← List.append_assoc, ← List.append_assoc (u64Bytes ps'.length)] at hopenings
  obtain ⟨rfl, hroot⟩ := hjoin ps ps' ⟨hps, hlength⟩ ⟨hps', hlength'⟩ _ _ hopenings
  obtain ⟨rfl, hrest⟩ := readsOff_bytes32 r r' trivial trivial _ _ hroot
  exact ⟨rfl, hrest⟩

/-! ### Digests -/

namespace StfOracles

variable (o : StfOracles)

def accessText (domain : List UInt8) (accesses : List StfStateAccess) : List UInt8 :=
  domain ++ u64Bytes accesses.length ++ accesses.flatMap StfStateAccess.bytes

def verkleText (proofs : List StfVerkleProof) : List UInt8 :=
  domVerkle ++ u64Bytes proofs.length ++ proofs.flatMap StfVerkleProof.bytes

def bindingText (x : ZkPublicInputs) (w : StfPrivateInputs) : List UInt8 :=
  domBind ++ x.encode ++ u64Bytes w.totalGas.toNat ++ u64Bytes w.maxBlockGas.toNat ++
    (o.computeReadsCommitment w.stateReads).bytes ++
    (o.computeWritesCommitment w.stateWrites).bytes ++
    (o.computeVerkleCommitment w.verkleProofs).bytes ++
    (o.computeCommitRevealCommitment w.commitRevealDigests).bytes

/-- The two texts do not collide. -/
def NoCollision (text text' : List UInt8) : Prop := o.sha256 text = o.sha256 text' → text = text'

/-- SHA-256 does not collide on what the bindings of the two inputs hash. -/
structure CollisionFree (x : ZkPublicInputs) (w w' : StfPrivateInputs) : Prop where
  binding : o.NoCollision (o.bindingText x w) (o.bindingText x w')
  reads : o.NoCollision (accessText domReads w.stateReads) (accessText domReads w'.stateReads)
  writes : o.NoCollision (accessText domWrites w.stateWrites) (accessText domWrites w'.stateWrites)
  proofs : o.NoCollision (verkleText w.verkleProofs) (verkleText w'.verkleProofs)

variable {o} {x : ZkPublicInputs} {w w' : StfPrivateInputs}

lemma accesses_eq_of_text {domain : List UInt8} {as bs : List StfStateAccess}
    (has : as.length < 2 ^ 64 ∧ ∀ a ∈ as, a.Fits) (hbs : bs.length < 2 ^ 64 ∧ ∀ a ∈ bs, a.Fits)
    (h : accessText domain as = accessText domain bs) : as = bs := by
  simp only [accessText, List.append_assoc, List.append_cancel_left_eq] at h
  exact (readsOff_u64Bytes.counted readsOff_access).injective has hbs h

end StfOracles

/-! ### Two witnesses under one binding -/

/-- The bytes of a compressed point. -/
def compressedPointLen : ℕ := 48

/-- An opening that verifies has the proof of one point. Commitments of 32 bytes are too short
for `deserialize_g1`, so that in the source no opening verifies at all. -/
def StfOracles.PointProofs (o : StfOracles) : Prop :=
  ∀ commitment index value proof, o.verifyKzgOpening commitment index value proof = .ok true →
    proof.length = compressedPointLen

/-- The inputs are for the same execution. -/
structure SameExecution (w w' : StfPrivateInputs) : Prop where
  transactions : w.transactions = w'.transactions
  reads : w.stateReads = w'.stateReads
  writes : w.stateWrites = w'.stateWrites
  proofs : w.verkleProofs = w'.verkleProofs

section

variable (o : StfOracles) (isProduction : Bool) (x : ZkPublicInputs)

/-- Any two inputs that the host accepts under one binding are for the same execution. -/
def BindsExecution : Prop :=
  ∀ w w' : StfPrivateInputs, w.Fits → w'.Fits → o.CollisionFree x w w' →
    Host.verifyStfPrivate o isProduction x w = .ok () →
    Host.verifyStfPrivate o isProduction x w' = .ok () →
    o.computeBinding x w = o.computeBinding x w' → SameExecution w w'

/-- Inputs with the binding that the checks compute. -/
def sealed (w : StfPrivateInputs) : StfPrivateInputs := { w with binding := o.computeBinding x w }

/-- One transaction that uses no gas; nothing looks at its nonce. -/
def freeNonce (nonce : UInt64) : StfPrivateInputs where
  version := 1
  maxBlockGas := 1
  transactions := [⟨1, 1, nonce, 1, 0, 0, 0, 1, 1, 0⟩]
  stateReads := []
  stateWrites := []
  verkleProofs := []
  commitRevealDigests := []
  binding := 0

def freeSplit (openingProofs : List (List UInt8)) : StfPrivateInputs where
  version := 1
  maxBlockGas := 1
  transactions := []
  stateReads := []
  stateWrites := []
  verkleProofs := [⟨[x.stateRootBefore, 0], [0, 0], [0, 0], openingProofs, x.witnessRoot⟩]
  commitRevealDigests := []
  binding := 0

end

section

variable {o : StfOracles} {isProduction : Bool} {x : ZkPublicInputs} {w w' : StfPrivateInputs}

/-- Without a transaction root there are no transactions, and the state root stays. -/
lemma Admissible.empty_of_txRoot {width : ℕ} (h : Admissible o x w width) (hroot : x.txRoot = 0) :
    w.transactions = [] ∧ x.stateRootBefore = x.stateRootAfter := by
  have hroots := h.roots
  unfold RootsOk at hroots
  split_ifs at hroots with hempty
  · exact ⟨hempty, hroots.1⟩
  · exact absurd hroot hroots.1

/-- In production every opening proof is the proof of one point. -/
lemma length_openingProof (hpoint : o.PointProofs) (h : Admissible o x w 64)
    (hverkle : VerkleChecked o w) : ∀ p ∈ w.verkleProofs, ∀ proof ∈ p.openingProofs,
      proof.length = compressedPointLen := by
  intro p hp proof hproof
  have hshape := h.proofs p hp
  have hpoints := hshape.points
  have hproofs := hshape.proofs
  have hevals := hverkle.lengths p hp
  -- every opening proof is in the opening of its position
  have hmap : (Host.openings p).map (fun q => q.2.2.2) = p.openingProofs := by
    have hfun : (fun q : Bytes32 × Bytes32 × Bytes32 × List UInt8 => q.2.2.2) =
        Prod.snd ∘ Prod.snd ∘ Prod.snd := rfl
    rw [hfun, Host.openings, ← List.map_map, ← List.map_map, List.map_snd_zip, List.map_snd_zip,
      List.map_snd_zip]
    all_goals
      try simp only [List.length_zip]
      omega
  rw [← hmap] at hproof
  obtain ⟨q, hq, rfl⟩ := List.mem_map.1 hproof
  exact hpoint _ _ _ _ (hverkle.openings p hp q hq)

/-- The accesses and the Verkle proofs are bound where the opening proofs have one length. -/
lemma sameExecution_of_binding {width n : ℕ} (hfit : w.Fits) (hfit' : w'.Fits)
    (hfree : o.CollisionFree x w w') (h : Admissible o x w width) (h' : Admissible o x w' width)
    (hlength : ∀ p ∈ w.verkleProofs, ∀ proof ∈ p.openingProofs, proof.length = n)
    (hlength' : ∀ p ∈ w'.verkleProofs, ∀ proof ∈ p.openingProofs, proof.length = n)
    (htxs : w.transactions = w'.transactions)
    (hbind : o.computeBinding x w = o.computeBinding x w') : SameExecution w w' := by
  -- the binding fixes the commitments inside it
  have hinside := hfree.binding hbind
  simp only [bindingText, List.append_assoc, List.append_cancel_left_eq] at hinside
  obtain ⟨-, hinside⟩ := readsOff_u64Bytes _ _ w.totalGas.toNat_lt w'.totalGas.toNat_lt _ _ hinside
  obtain ⟨-, hinside⟩ :=
    readsOff_u64Bytes _ _ w.maxBlockGas.toNat_lt w'.maxBlockGas.toNat_lt _ _ hinside
  obtain ⟨hreads, hinside⟩ := readsOff_bytes32 _ _ trivial trivial _ _ hinside
  obtain ⟨hwrites, hinside⟩ := readsOff_bytes32 _ _ trivial trivial _ _ hinside
  obtain ⟨hproofs, -⟩ := readsOff_bytes32 _ _ trivial trivial _ _ hinside
  have hsizes := h.sizes
  have hsizes' := h'.sizes
  have hmax : maxStfStateReads < 2 ^ 64 ∧ maxStfStateWrites < 2 ^ 64 ∧
      maxStfVerkleProofs < 2 ^ 64 := by decide
  refine ⟨htxs, ?_, ?_, ?_⟩
  · exact accesses_eq_of_text ⟨hsizes.stateReads.trans_lt hmax.1, hfit.reads⟩
      ⟨hsizes'.stateReads.trans_lt hmax.1, hfit'.reads⟩ (hfree.reads hreads)
  · exact accesses_eq_of_text ⟨hsizes.stateWrites.trans_lt hmax.2.1, hfit.writes⟩
      ⟨hsizes'.stateWrites.trans_lt hmax.2.1, hfit'.writes⟩ (hfree.writes hwrites)
  · have htext := hfree.proofs hproofs
    simp only [verkleText, List.append_assoc, List.append_cancel_left_eq] at htext
    exact (readsOff_u64Bytes.counted readsOff_verkleProof).injective
      ⟨hsizes.verkleProofs.trans_lt hmax.2.2, fun p hp => ⟨hfit.proofs p hp, hlength p hp⟩⟩
      ⟨hsizes'.verkleProofs.trans_lt hmax.2.2, fun p hp => ⟨hfit'.proofs p hp, hlength' p hp⟩⟩
      htext

lemma sizesOk_of_le_one (hversion : w.version = stfCircuitVersion)
    (htxs : w.transactions.length ≤ 1) (hreads : w.stateReads.length ≤ 1)
    (hwrites : w.stateWrites.length ≤ 1) (hproofs : w.verkleProofs.length ≤ 1)
    (hdigests : w.commitRevealDigests.length ≤ 1) : SizesOk w :=
  ⟨hversion, htxs.trans (by decide), hreads.trans (by decide), hwrites.trans (by decide),
    hproofs.trans (by decide), hdigests.trans (by decide)⟩

lemma freeNonce_accepted (hroot : x.txRoot ≠ 0) (nonce : UInt64) :
    Host.verifyStfPrivate o isProduction x (sealed o x (freeNonce nonce)) = .ok () := by
  have hsizes : SizesOk (sealed o x (freeNonce nonce)) :=
    sizesOk_of_le_one rfl le_rfl zero_le_one zero_le_one zero_le_one zero_le_one
  have hmax : (1 : UInt64) ≠ 0 := by decide
  have hgas : (0 + 0 : UInt64) ≤ 1 := by decide
  have hone : (1 : Bytes32) ≠ 0 := by decide
  refine Host.verifyStfPrivate_ok_iff.2 ⟨?_, ?_⟩
  · refine ⟨hsizes, hmax, hgas, ?_, ?_, ?_, forall_mem_nil _, forall_mem_nil _,
      forall_mem_nil _, forall_mem_nil _, rfl⟩
    · exact ⟨hroot, fun h => absurd rfl h⟩
    · -- a single pair is sorted and shuffled into itself
      intro i tx htx
      obtain ⟨hi, -⟩ := List.getElem?_eq_some_iff.1 htx
      obtain rfl : i = 0 := by simpa [sealed, freeNonce] using hi
      obtain rfl : _ = tx := Option.some.inj htx
      rfl
    · intro tx htx
      obtain rfl : tx = _ := List.mem_singleton.1 htx
      exact ⟨hmax, UInt64.zero_le, hone, .inr ⟨rfl, hone, hone⟩⟩
  · exact ⟨forall_mem_nil _, forall_mem_nil _, by simp [sealed, freeNonce]⟩

/-- Outside of production proofs of zeros are not looked at. -/
lemma freeSplit_accepted (hroots : x.stateRootBefore = x.stateRootAfter)
    {openingProofs : List (List UInt8)} (hlength : openingProofs.length = 2)
    (hzero : ∀ proof ∈ openingProofs, ∀ b ∈ proof, b = 0) :
    Host.verifyStfPrivate o false x (sealed o x (freeSplit x openingProofs)) = .ok () := by
  have hsizes : SizesOk (sealed o x (freeSplit x openingProofs)) :=
    sizesOk_of_le_one rfl zero_le_one zero_le_one zero_le_one le_rfl zero_le_one
  have hmax : (1 : UInt64) ≠ 0 := by decide
  refine Host.verifyStfPrivate_ok_iff.2 ⟨?_, ?_⟩
  · refine ⟨hsizes, hmax, UInt64.zero_le, ⟨hroots, rfl⟩, ?_, forall_mem_nil _,
      forall_mem_nil _, forall_mem_nil _, ?_, forall_mem_nil _, rfl⟩
    · intro i tx htx
      simp [sealed, freeSplit] at htx
    · intro p hp
      obtain rfl : p = _ := List.mem_singleton.1 hp
      exact ⟨by simp, by simp, rfl, by simp [hlength], rfl, rfl⟩
  · refine ⟨?_, ?_, by simp [sealed, freeSplit]⟩
    · intro p hp
      obtain rfl : p = _ := List.mem_singleton.1 hp
      rfl
    · intro p hp q hq
      obtain rfl : p = _ := List.mem_singleton.1 hp
      have hproof : q.2.2.2 ∈ openingProofs :=
        (List.of_mem_zip (List.of_mem_zip (List.of_mem_zip hq).2).2).2
      exact .inl ⟨.inr (hzero _ hproof), rfl⟩

/-- The binding fixes the execution exactly for public inputs without a transaction root, in
production or with different state roots (where nothing is accepted). -/
theorem bindsExecution_iff (hpoint : o.PointProofs) :
    BindsExecution o isProduction x ↔
      x.txRoot = 0 ∧ (isProduction = true ∨ x.stateRootBefore ≠ x.stateRootAfter) := by
  constructor
  · intro h
    have hroot : x.txRoot = 0 := by
      by_contra hroot
      have hfits (nonce : UInt64) : (sealed o x (freeNonce nonce)).Fits :=
        ⟨forall_mem_nil _, forall_mem_nil _, forall_mem_nil _⟩
      have hsame := h (sealed o x (freeNonce 0)) (sealed o x (freeNonce 1))
        (hfits 0) (hfits 1) ⟨fun _ => rfl, fun _ => rfl, fun _ => rfl, fun _ => rfl⟩
        (freeNonce_accepted hroot 0) (freeNonce_accepted hroot 1) rfl
      have htxs := hsame.transactions
      simp [sealed, freeNonce] at htxs
    refine ⟨hroot, ?_⟩
    by_contra hnot
    rw [not_or, Bool.not_eq_true, not_not] at hnot
    obtain ⟨rfl, hroots⟩ := hnot
    -- one zero byte belongs to the first opening or to the second
    have hfits (openingProofs : List (List UInt8)) (hlength : openingProofs.length = 2) :
        (sealed o x (freeSplit x openingProofs)).Fits := by
      refine ⟨forall_mem_nil _, forall_mem_nil _, fun p hp => ?_⟩
      obtain rfl : p = _ := List.mem_singleton.1 hp
      exact ⟨by simp, by simp, by simp, by simp [hlength]⟩
    have hsame := h (sealed o x (freeSplit x [[0], []])) (sealed o x (freeSplit x [[], [0]]))
      (hfits _ rfl) (hfits _ rfl) ⟨fun _ => rfl, fun _ => rfl, fun _ => rfl, fun _ => rfl⟩
      (freeSplit_accepted hroots rfl (by simp)) (freeSplit_accepted hroots rfl (by simp)) rfl
    have hproofs := hsame.proofs
    simp [sealed, freeSplit] at hproofs
  · rintro ⟨hroot, hmode⟩ w w' hfit hfit' hfree h h' hbind
    obtain ⟨hadm, hverkle⟩ := Host.verifyStfPrivate_ok_iff.1 h
    obtain ⟨hadm', hverkle'⟩ := Host.verifyStfPrivate_ok_iff.1 h'
    obtain ⟨htxs, hroots⟩ := hadm.empty_of_txRoot hroot
    obtain ⟨htxs', -⟩ := hadm'.empty_of_txRoot hroot
    obtain rfl : isProduction = true := hmode.resolve_right fun hne => hne hroots
    rw [openingsChecked_production] at hverkle hverkle'
    exact sameExecution_of_binding hfit hfit' hfree hadm hadm'
      (length_openingProof hpoint hadm hverkle) (length_openingProof hpoint hadm' hverkle')
      (htxs.trans htxs'.symm) hbind

end

def pointOracles : StfOracles :=
  { toyOracles with verifyKzgOpening := fun _ _ _ proof => .ok (proof.length = 48) }

def emptyPublic : ZkPublicInputs := { toyPublic with txRoot := 0 }

theorem bindsExecution_empty_block :
    BindsExecution pointOracles true emptyPublic ↔
      emptyPublic.txRoot = 0 ∧
        (true = true ∨ emptyPublic.stateRootBefore ≠ emptyPublic.stateRootAfter) := by
  refine bindsExecution_iff fun commitment index value proof h => ?_
  simpa [pointOracles, compressedPointLen] using h

/-- In production the host accepts two different transactions under one binding; outside of
production it also accepts two ways to cut the opening proofs. -/
theorem one_binding_two_executions :
    (let w := sealed toyOracles toyPublic (freeNonce 0)
      let w' := sealed toyOracles toyPublic (freeNonce 1)
      Host.verifyStfPrivate toyOracles true toyPublic w = .ok () ∧
        Host.verifyStfPrivate toyOracles true toyPublic w' = .ok () ∧
        toyOracles.bindingText toyPublic w = toyOracles.bindingText toyPublic w' ∧
        toyOracles.computeBinding toyPublic w = toyOracles.computeBinding toyPublic w' ∧
        w.transactions ≠ w'.transactions) ∧
    (let w := sealed toyOracles emptyPublic (freeSplit emptyPublic [[0], []])
      let w' := sealed toyOracles emptyPublic (freeSplit emptyPublic [[], [0]])
      Host.verifyStfPrivate toyOracles false emptyPublic w = .ok () ∧
        Host.verifyStfPrivate toyOracles false emptyPublic w' = .ok () ∧
        toyOracles.bindingText emptyPublic w = toyOracles.bindingText emptyPublic w' ∧
        verkleText w.verkleProofs = verkleText w'.verkleProofs ∧
        toyOracles.computeBinding emptyPublic w = toyOracles.computeBinding emptyPublic w' ∧
        w.verkleProofs ≠ w'.verkleProofs) := by
  decide +kernel

end Sxiaum.Zk
