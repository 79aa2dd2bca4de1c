import Sxiaum.State.StateDb
import Sxiaum.State.TreeContents

/-!
# Rows and leaves

Every account row and every storage row has a leaf in the tree: at the address, or at the proof
key of the slot. A tree matches the rows if it has their leaves and no others. Trees that match
the same rows have the same root, so the order of the writes does not matter. Two rows with one
leaf key cannot both have their leaf; the tree cannot be rebuilt from them.
-/

namespace Sxiaum

open Guards StateDb

/-! ### What is asked of a tree -/

section Lawful

variable {T : Type}

/-- The tree `t'` is `t` with another value at a key. -/
def TreeOps.Sets (ops : TreeOps T) (t t' : T) (key : Hash) (value : Option Hash) : Prop :=
  ∀ k, ops.get t' k = if keyBytes k = keyBytes key then value else ops.get t k

/-- A tree is a map from keys of 32 bytes whose root depends on its values only. -/
structure TreeOps.Lawful (ops : TreeOps T) (good : T → Prop) : Prop where
  good_new : good ops.new
  get_new : ∀ k, ops.get ops.new k = none
  get_congr : ∀ t {k k' : Hash}, keyBytes k = keyBytes k' → ops.get t k = ops.get t k'
  insert_free : ∀ {t k} (v : Hash), good t → ops.get t k = none →
    ∃ t', ops.insert t k v = (t', .ok ()) ∧ good t' ∧ ops.Sets t t' k (some v)
  insert_taken : ∀ {t k} (v : Hash), good t → (ops.get t k).isSome = true →
    ∃ t' e, ops.insert t k v = (t', .error e)
  update : ∀ {t k} (v : Hash), good t → (ops.get t k).isSome = true →
    ∃ t', ops.update t k v = (t', .ok ()) ∧ good t' ∧ ops.Sets t t' k (some v)
  delete : ∀ {t k}, good t → (ops.get t k).isSome = true →
    ∃ t', ops.delete t k = (t', .ok ()) ∧ good t' ∧ ops.Sets t t' k none
  root : ∀ {t t'}, good t → good t' → (∀ k, ops.get t k = ops.get t' k) →
    ops.rootCommitment t = ops.rootCommitment t'
  /-- `Account::try_hash` does not fail. -/
  hashes : ∀ a, ∃ h, ops.accountHash a = .ok h

end Lawful

lemma keyBytes_surjective : Function.Surjective keyBytes := by
  intro key
  -- the bytes in reverse are the digits
  refine ⟨Nat.ofDigits 256 (key.toList.map UInt8.toNat).reverse, Vector.ext fun i hi => ?_⟩
  have hlength : ((key.toList.map UInt8.toNat).reverse).length = 32 := by simp
  have hdigit : ∀ d ∈ (key.toList.map UInt8.toNat).reverse, d < 256 := by
    intro d hd
    obtain ⟨byte, -, rfl⟩ := List.mem_map.1 (List.mem_reverse.1 hd)
    exact byte.toNat_lt
  have hlt : 31 - i < ((key.toList.map UInt8.toNat).reverse).length := by omega
  have hbyte : ((key.toList.map UInt8.toNat).reverse)[31 - i] = key[i].toNat := by
    simp only [List.getElem_reverse, List.getElem_map, List.length_map, Vector.length_toList,
      Vector.getElem_toList]
    congr 2
    omega
  rw [keyBytes, Vector.getElem_ofFn]
  dsimp only
  rw [Nat.ofDigits_div_pow_eq_ofDigits_drop _ (by decide) _ hdigit, List.drop_eq_getElem_cons hlt,
    Nat.ofDigits_cons, hbyte]
  apply UInt8.toNat_inj.1
  rw [UInt8.toNat_ofNat']
  have := key[i].toNat_lt
  omega

section Verkle

variable {F : Type} {kzg : Crypto.KzgScheme F} {accountHash : Account → Except String Hash}
  {storageProofKey : Address → Hash → Hash} {t t' : State.VerkleTree} {key : Hash}

lemma verkleOps_get (t : State.VerkleTree) (k : Hash) :
    (verkleOps kzg accountHash storageProofKey).get t k = t.get (keyBytes k) := rfl

lemma sets_verkleOps {value : Option Hash}
    (hget : ∀ k, t'.get k = if k = keyBytes key then value else t.get k) :
    (verkleOps kzg accountHash storageProofKey).Sets t t' key value := by
  intro k
  rw [verkleOps_get, verkleOps_get, hget]

lemma lawful_verkleOps (hhash : ∀ a, ∃ h, accountHash a = .ok h) :
    (verkleOps kzg accountHash storageProofKey).Lawful (State.VerkleTree.Good kzg) := by
  constructor
  · exact State.VerkleTree.good_new kzg
  · intro k
    rw [verkleOps_get]
    exact State.VerkleTree.get_new kzg _
  · intro t k k' heq
    rw [verkleOps_get, verkleOps_get, heq]
  · intro t k v hgood hfree
    rw [verkleOps_get] at hfree
    obtain ⟨t', hins, hgood', hget⟩ :=
      @State.VerkleTree.insert_spec F kzg t (keyBytes k) v hgood hfree
    exact ⟨t', hins, hgood', sets_verkleOps hget⟩
  · intro t k v hgood hsome
    rw [verkleOps_get] at hsome
    obtain ⟨_, -, e, herr⟩ := State.VerkleTree.insert_of_isSome hgood hsome
    exact ⟨_, e, herr⟩
  · intro t k v hgood hsome
    rw [verkleOps_get] at hsome
    obtain ⟨t', hup, hgood', hget⟩ :=
      @State.VerkleTree.update_spec F kzg t (keyBytes k) v hgood hsome
    exact ⟨t', hup, hgood', sets_verkleOps hget⟩
  · intro t k hgood hsome
    rw [verkleOps_get] at hsome
    obtain ⟨t', hdel, hgood', hget⟩ :=
      @State.VerkleTree.delete_spec F kzg t (keyBytes k) hgood hsome
    exact ⟨t', hdel, hgood', sets_verkleOps hget⟩
  · intro t t' hgood hgood' heq
    refine congrArg State.VerkleTree.rootCommitment (hgood.ext hgood' fun key => ?_)
    obtain ⟨k, rfl⟩ := keyBytes_surjective key
    rw [← verkleOps_get, ← verkleOps_get, heq]
  · exact hhash

end Verkle

/-! ### The leaf of a row -/

section Leaves

variable {T : Type} (ops : TreeOps T)

/-- Where a row has its leaf. -/
def leafKey : StateKey → Option Hash
  | .account address => some address
  | .storage address slot => some (ops.storageProofKey address slot)
  | _ => none

/-- What the leaf of a row says. -/
def leafValue : StateKey → StateRow → Option Hash
  | .account _, row => (decodeAccount row).toOption.bind fun a => (ops.accountHash a).toOption
  | .storage _ _, .word value => some value
  | _, _ => none

def StateTable.rowAt (t : StateTable) (key : StateKey) : Option StateRow :=
  match t.lookup (.state key) with
  | some (.state row) => some row
  | _ => none

/-- The leaves of two keys are at the same place. -/
def SameLeaf (k k' : StateKey) : Prop :=
  ∃ h h', leafKey ops k = some h ∧ leafKey ops k' = some h' ∧ keyBytes h = keyBytes h'

variable (rows : StateKey → Option StateRow)

/-- No other key with a row has its leaf where `k` has it. -/
def Alone (k : StateKey) : Prop :=
  ∀ k', (rows k').isSome = true → SameLeaf ops k k' → k' = k

/-- No two rows have their leaf at the same place. -/
def Apart : Prop :=
  ∀ k, (rows k).isSome = true → Alone ops rows k

/-- Every row that should have a leaf decodes. -/
def Sound : Prop :=
  ∀ k h row, leafKey ops k = some h → rows k = some row → (leafValue ops k row).isSome = true

/-- The tree has the leaves of the rows and no others. -/
structure Matches (good : T → Prop) (rows : StateKey → Option StateRow) (t : T) : Prop where
  good : good t
  leaf : ∀ {k h row}, leafKey ops k = some h → rows k = some row →
    ∃ v, leafValue ops k row = some v ∧ ops.get t h = some v
  row : ∀ {h v}, ops.get t h = some v →
    ∃ k h', leafKey ops k = some h' ∧ keyBytes h' = keyBytes h ∧ (rows k).isSome = true

end Leaves

section Matches

variable {T : Type} {ops : TreeOps T} {good : T → Prop} (hlawful : ops.Lawful good)
  {rows : StateKey → Option StateRow} {t t' : T} {k : StateKey} {h : Hash}

lemma SameLeaf.symm {k k' : StateKey} (hsame : SameLeaf ops k k') : SameLeaf ops k' k := by
  obtain ⟨h, h', hk, hk', heq⟩ := hsame
  exact ⟨h', h, hk', hk, heq.symm⟩

lemma SameLeaf.right_isSome {k k' : StateKey} (hsame : SameLeaf ops k k') :
    (leafKey ops k').isSome = true := by
  obtain ⟨-, h', -, hk', -⟩ := hsame
  rw [hk']
  rfl

lemma Matches.congr {rows rows' : StateKey → Option StateRow} (hmatch : Matches ops good rows t)
    (heq : ∀ k, (leafKey ops k).isSome = true → rows k = rows' k) : Matches ops good rows' t where
  good := hmatch.good
  leaf {k h row} hk hrow := hmatch.leaf hk ((heq k (by rw [hk]; rfl)).trans hrow)
  row hget := by
    obtain ⟨k, h, hk, hbytes, hsome⟩ := hmatch.row hget
    exact ⟨k, h, hk, hbytes, by rwa [← heq k (by rw [hk]; rfl)]⟩

lemma Apart.congr {rows rows' : StateKey → Option StateRow} (hapart : Apart ops rows)
    (heq : ∀ k, (leafKey ops k).isSome = true → rows k = rows' k) : Apart ops rows' := by
  intro k hk k' hk' hsame
  rw [← heq k hsame.symm.right_isSome] at hk
  rw [← heq k' hsame.right_isSome] at hk'
  exact hapart k hk k' hk' hsame

lemma isSome_of_update {row : Option StateRow} {k' : StateKey}
    (hk' : (Function.update rows k row k').isSome = true) : k' = k ∨ (rows k').isSome = true := by
  by_cases heq : k' = k
  · exact .inl heq
  · rw [Function.update_of_ne heq] at hk'
    exact .inr hk'

lemma Apart.update (hapart : Apart ops rows) (halone : Alone ops rows k)
    (row : Option StateRow) : Apart ops (Function.update rows k row) := by
  intro k₁ hk₁ k₂ hk₂ hsame
  rcases isSome_of_update hk₁ with heq₁ | hrow₁ <;> rcases isSome_of_update hk₂ with heq₂ | hrow₂
  · rw [heq₁, heq₂]
  · rw [heq₁] at hsame ⊢
    exact halone k₂ hrow₂ hsame
  · rw [heq₂] at hsame ⊢
    exact (halone k₁ hrow₁ hsame.symm).symm
  · exact hapart k₁ hrow₁ k₂ hrow₂ hsame

include hlawful

lemma matches_new : Matches ops good (fun _ => none) ops.new where
  good := hlawful.good_new
  leaf _ hrow := by cases hrow
  row hget := by
    rw [hlawful.get_new] at hget
    cases hget

variable (hmatch : Matches ops good rows t)

include hmatch

lemma Matches.get_eq (hmatch' : Matches ops good rows t')
    {v : Hash} (hget : ops.get t h = some v) : ops.get t' h = some v := by
  obtain ⟨k, h', hk, hbytes, hsome⟩ := hmatch.row hget
  obtain ⟨row, hrow⟩ := Option.isSome_iff_exists.1 hsome
  obtain ⟨w, hw, hgetw⟩ := hmatch.leaf hk hrow
  obtain ⟨w', hw', hgetw'⟩ := hmatch'.leaf hk hrow
  rw [hlawful.get_congr t hbytes, hget] at hgetw
  rw [hlawful.get_congr t' hbytes, Option.some.inj (hw'.symm.trans hw)] at hgetw'
  exact hgetw'.trans hgetw.symm

/-- Two trees of the same rows have one root. -/
lemma Matches.root_eq (hmatch' : Matches ops good rows t') :
    ops.rootCommitment t = ops.rootCommitment t' := by
  refine hlawful.root hmatch.good hmatch'.good fun k => Option.ext fun v => ?_
  exact ⟨hmatch.get_eq hlawful hmatch', hmatch'.get_eq hlawful hmatch⟩

omit hlawful

lemma Matches.sound : Sound ops rows := by
  intro k h row hk hrow
  obtain ⟨v, hv, -⟩ := hmatch.leaf hk hrow
  rw [hv]
  rfl

lemma Matches.change (hgood : good t') {new : Option StateRow}
    (hk : leafKey ops k = some h) (hv : new.isSome → (new.bind (leafValue ops k)).isSome)
    (hset : ops.Sets t t' h (new.bind (leafValue ops k))) (halone : Alone ops rows k) :
    Matches ops good (Function.update rows k new) t' where
  good := hgood
  leaf {k' h' row'} hk' hrow' := by
    by_cases heq : k' = k
    · subst heq
      rw [Function.update_self] at hrow'
      subst hrow'
      obtain ⟨v, hv⟩ := Option.isSome_iff_exists.1 (hv rfl)
      obtain rfl := Option.some.inj (hk.symm.trans hk')
      exact ⟨v, hv, (hset h).trans ((if_pos rfl).trans hv)⟩
    · rw [Function.update_of_ne heq] at hrow'
      obtain ⟨w, hw, hget⟩ := hmatch.leaf hk' hrow'
      refine ⟨w, hw, (hset h').trans ?_⟩
      rw [if_neg, hget]
      intro hbytes
      exact heq (halone k' (by rw [hrow']; rfl) ⟨h, h', hk, hk', hbytes.symm⟩)
  row {h' w} hget := by
    rw [hset h'] at hget
    split_ifs at hget with hbytes
    · obtain ⟨row, rfl, -⟩ := Option.bind_eq_some_iff.1 hget
      exact ⟨k, h, hk, hbytes.symm, by rw [Function.update_self]; rfl⟩
    · obtain ⟨k', h'', hk', hbytes', hsome⟩ := hmatch.row hget
      have hne : k' ≠ k := by
        rintro rfl
        obtain rfl := Option.some.inj (hk.symm.trans hk')
        exact hbytes hbytes'.symm
      exact ⟨k', h'', hk', hbytes', by rwa [Function.update_of_ne hne]⟩

lemma Matches.set (hgood : good t') {row : StateRow} {v : Hash}
    (hk : leafKey ops k = some h) (hv : leafValue ops k row = some v)
    (hset : ops.Sets t t' h (some v)) (halone : Alone ops rows k) :
    Matches ops good (Function.update rows k (some row)) t' :=
  hmatch.change hgood hk (fun _ => by simp [hv]) (by simpa [hv] using hset) halone

lemma Matches.clear (hgood : good t')
    (hk : leafKey ops k = some h) (hset : ops.Sets t t' h none) (halone : Alone ops rows k) :
    Matches ops good (Function.update rows k none) t' :=
  hmatch.change hgood hk (fun hnone => by cases hnone) hset halone

lemma Matches.update (hk : leafKey ops k = none)
    (row : Option StateRow) : Matches ops good (Function.update rows k row) t := by
  refine hmatch.congr fun k' hk' => (Function.update_of_ne ?_ _ _).symm
  rintro rfl
  rw [hk] at hk'
  cases hk'

end Matches

/-! ### Rebuilding the tree -/

section Rebuild

variable {T : Type} {ops : TreeOps T} {good : T → Prop} {table : StateTable} {t t' : T}
  {k : StateKey} {h : Hash} {address : Address} {slot : Hash} {row : StateRow}

def insertRow (ops : TreeOps T) (table : StateTable) (t : T) : StateKey → Except ExecutionError T
  | .account address => StateDb.insertAccount ops table t address
  | .storage address slot => StateDb.insertSlot ops table t (toLex (address, slot))
  | _ => .ok t

/-- The keys that `rebuild_tree_from_storage` scans. -/
def scanned (table : StateTable) : List StateKey :=
  (table.scan StateDb.accountKey).map StateKey.account ++
    (table.scan StateDb.slotKey).map fun slot => .storage (ofLex slot).1 (ofLex slot).2

lemma rebuiltTree_eq (ops : TreeOps T) (table : StateTable) :
    rebuiltTree ops table = (scanned table).foldlM (insertRow ops table) ops.new := by
  rw [scanned, List.foldlM_append, List.foldlM_map, rebuiltTree]
  refine bind_congr fun t => ?_
  rw [List.foldlM_map]
  rfl

lemma accountKey_eq_some {key : DbKey} :
    accountKey key = some address ↔ key = .state (.account address) := by
  constructor
  · unfold accountKey
    split <;> rintro ⟨⟩
    rfl
  · rintro rfl
    rfl

lemma slotKey_eq_some {key : DbKey} {slot : Address ×ₗ Hash} :
    slotKey key = some slot ↔ key = .state (.storage (ofLex slot).1 (ofLex slot).2) := by
  constructor
  · unfold slotKey
    split <;> rintro ⟨⟩
    rfl
  · rintro rfl
    rfl

lemma mem_scanned : k ∈ scanned table ↔
    (leafKey ops k).isSome = true ∧ (table.lookup (.state k)).isSome = true := by
  have hscan : ∀ {ι : Type} [LinearOrder ι] (kind : DbKey → Option ι) (i : ι),
      i ∈ table.scan kind ↔ ∃ key, (table.lookup key).isSome = true ∧ kind key = some i := by
    intro ι _ kind i
    rw [AList.scan, (List.perm_insertionSort _ _).mem_iff, List.mem_filterMap]
    simp only [← AList.mem_keys, AList.lookup_isSome]
  rw [scanned, List.mem_append, List.mem_map, List.mem_map]
  constructor
  · rintro (⟨address, hmem, rfl⟩ | ⟨slot, hmem, rfl⟩)
    · obtain ⟨key, hkey, hkind⟩ := (hscan _ _).1 hmem
      exact ⟨rfl, accountKey_eq_some.1 hkind ▸ hkey⟩
    · obtain ⟨key, hkey, hkind⟩ := (hscan _ _).1 hmem
      exact ⟨rfl, slotKey_eq_some.1 hkind ▸ hkey⟩
  · rintro ⟨hleaf, hrow⟩
    cases k with
    | account address => exact .inl ⟨address, (hscan _ _).2 ⟨_, hrow, rfl⟩, rfl⟩
    | storage address slot =>
      exact .inr ⟨toLex (address, slot), (hscan _ _).2 ⟨_, hrow, rfl⟩, rfl⟩
    | code _ | vesting _ | blockHash _ => cases hleaf

lemma nodup_scanned (table : StateTable) : (scanned table).Nodup := by
  have hscan : ∀ {ι : Type} [LinearOrder ι] (kind : DbKey → Option ι),
      (∀ key key' i, kind key = some i → kind key' = some i → key = key') →
      (table.scan kind).Nodup := by
    intro ι _ kind hinj
    rw [AList.scan, (List.perm_insertionSort _ _).nodup_iff]
    exact table.keys_nodup.filterMap fun key key' i hi hi' => hinj key key' i hi hi'
  rw [scanned, List.nodup_append]
  refine ⟨(hscan _ ?_).map fun a b hab => StateKey.account.inj hab,
    (hscan _ ?_).map fun a b hab => ?_, ?_⟩
  · intro key key' i hi hi'
    rw [accountKey_eq_some.1 hi, accountKey_eq_some.1 hi']
  · intro key key' i hi hi'
    rw [slotKey_eq_some.1 hi, slotKey_eq_some.1 hi']
  · obtain ⟨haddress, hslot⟩ := StateKey.storage.inj hab
    exact ofLex.injective (Prod.ext haddress hslot)
  · rintro a ha b hb rfl
    obtain ⟨address, -, rfl⟩ := List.mem_map.1 ha
    obtain ⟨slot, -, hslot⟩ := List.mem_map.1 hb
    cases hslot

lemma rowAt_eq_some : table.rowAt k = some row ↔ table.lookup (.state k) = some (.state row) := by
  unfold StateTable.rowAt
  split
  · rename_i hrow
    rw [hrow]
    simp
  · rename_i hrow
    refine iff_of_false (by simp) fun heq => hrow row heq

lemma insertAccount_ok_iff (hrow : table.lookup (.state (.account address)) = some (.state row)) :
    insertAccount ops table t address = .ok t' ↔
      ∃ v, leafValue ops (.account address) row = some v ∧
        ops.insert t address v = (t', .ok ()) := by
  rw [insertAccount, hrow, leafValue]
  dsimp only
  rcases decodeAccount row with e | account
  · simp [Except.toOption, bind, Except.bind]
  rcases hhash : ops.accountHash account with e | v
  · simp [Except.toOption, bind, Except.bind, Except.mapError, hhash]
  rcases hins : ops.insert t address v with ⟨tree, e | ⟨⟩⟩
  · simp [Except.toOption, bind, Except.bind, Except.mapError, hhash, hins]
  · simp [Except.toOption, bind, Except.bind, Except.mapError, hhash, hins]

lemma insertSlot_ok_iff (hrow : table.lookup (.state (.storage address slot)) = some (.state row)) :
    insertSlot ops table t (toLex (address, slot)) = .ok t' ↔
      ∃ v, leafValue ops (.storage address slot) row = some v ∧
        ops.insert t (ops.storageProofKey address slot) v = (t', .ok ()) := by
  have hrow' : table.lookup (.state (.storage (ofLex (toLex (address, slot))).1
    (ofLex (toLex (address, slot))).2)) = some (.state row) := hrow
  rw [insertSlot, hrow']
  cases row with
  | word v =>
    dsimp only [leafValue, ofLex_toLex]
    rcases hins : ops.insert t (ops.storageProofKey address slot) v with ⟨tree, e | ⟨⟩⟩
    · simp [hins]
    · simp [hins]
  | empty | account _ | code _ | vesting _ => simp [leafValue]

/-- The leaf of a row is inserted if the row decodes and the key is free. -/
lemma insertRow_ok_iff (hk : leafKey ops k = some h)
    (hrow : table.rowAt k = some row) : insertRow ops table t k = .ok t' ↔
      ∃ v, leafValue ops k row = some v ∧ ops.insert t h v = (t', .ok ()) := by
  rw [rowAt_eq_some] at hrow
  cases k with
  | account address =>
    obtain rfl := Option.some.inj hk
    exact insertAccount_ok_iff hrow
  | storage address slot =>
    obtain rfl := Option.some.inj hk
    exact insertSlot_ok_iff hrow
  | code _ | vesting _ | blockHash _ => cases hk

lemma insertRow_eq_self (hrow : table.rowAt k = none)
    (htyped : ∀ address slot r, k = .storage address slot → table.lookup (.state k) = some r →
      ∃ row, r = .state row) : insertRow ops table t k = .ok t := by
  have hnone : ∀ row, table.lookup (.state k) ≠ some (.state row) := fun row heq => by
    rw [rowAt_eq_some.2 heq] at hrow
    cases hrow
  cases k with
  | account address =>
    change insertAccount ops table t address = .ok t
    unfold insertAccount
    split
    · rename_i row heq
      exact absurd heq (hnone row)
    · rfl
  | storage address slot =>
    change insertSlot ops table t (toLex (address, slot)) = .ok t
    unfold insertSlot
    split
    · rename_i value heq
      exact absurd heq (hnone (.word value))
    · rename_i r _ heq
      obtain ⟨row, rfl⟩ := htyped address slot r rfl heq
      exact absurd heq (hnone row)
    · rfl
  | code _ | vesting _ | blockHash _ => rfl

lemma typed_of_insertRow {r : DbRow} (hr : table.lookup (.state (.storage address slot)) = some r)
    (hins : insertRow ops table t (.storage address slot) = .ok t') : ∃ row, r = .state row := by
  have hins' : insertSlot ops table t (toLex (address, slot)) = .ok t' := hins
  unfold insertSlot at hins'
  split at hins'
  · rename_i value heq
    exact ⟨.word value, Option.some.inj (hr.symm.trans heq)⟩
  · cases hins'
  · rename_i heq
    cases hr.symm.trans heq

lemma insertRow_of_none (hrow : table.rowAt k = none) (hins : insertRow ops table t k = .ok t') :
    t' = t := by
  have hself : insertRow ops table t k = .ok t := by
    refine insertRow_eq_self hrow fun address slot r hk hr => ?_
    subst hk
    exact typed_of_insertRow hr hins
  exact Except.ok.inj (hins.symm.trans hself)

def rowsAmong (ks : List StateKey) (rows : StateKey → Option StateRow) (k : StateKey) :
    Option StateRow := if k ∈ ks then rows k else none

lemma rowsAmong_snoc (ks : List StateKey) (rows : StateKey → Option StateRow) (k : StateKey) :
    rowsAmong (ks ++ [k]) rows = Function.update (rowsAmong ks rows) k (rows k) := by
  funext k'
  by_cases heq : k' = k
  · subst heq
    simp [rowsAmong]
  · simp [rowsAmong, heq]

lemma rowsAmong_scanned (ops : TreeOps T) (table : StateTable) {k : StateKey}
    (hk : (leafKey ops k).isSome = true) :
    rowsAmong (scanned table) table.rowAt k = table.rowAt k := by
  unfold rowsAmong
  split_ifs with hmem
  · rfl
  · symm
    rw [Option.eq_none_iff_forall_ne_some]
    intro row hrow
    rw [rowAt_eq_some] at hrow
    exact hmem ((@mem_scanned T ops table k).2 ⟨hk, by rw [hrow]; rfl⟩)

section Lawful

variable (hlawful : ops.Lawful good)

include hlawful

lemma matches_foldlM {ks : List StateKey} (hleaf : ∀ k ∈ ks, (leafKey ops k).isSome = true)
    (hnodup : ks.Nodup) (hfold : ks.foldlM (insertRow ops table) ops.new = .ok t) :
    Matches ops good (rowsAmong ks table.rowAt) t ∧ Apart ops (rowsAmong ks table.rowAt) := by
  -- from the end: the last key meets the tree of those before it
  induction ks using List.reverseRecOn generalizing t with
  | nil =>
    obtain rfl := Except.ok.inj hfold
    have hnone : rowsAmong [] table.rowAt = fun _ => none := funext fun k => by simp [rowsAmong]
    rw [hnone]
    exact ⟨matches_new hlawful, fun k hk => by cases hk⟩
  | append_singleton front k ih =>
    rw [List.foldlM_append, bind_ok] at hfold
    obtain ⟨before, hfront, hlast⟩ := hfold
    simp only [List.foldlM_cons, List.foldlM_nil, bind_pure] at hlast
    rw [List.forall_mem_append] at hleaf
    rw [List.nodup_append] at hnodup
    obtain ⟨hmatch, hapart⟩ := ih hleaf.1 hnodup.1 hfront
    obtain ⟨h, hk⟩ := Option.isSome_iff_exists.1 (hleaf.2 k (List.mem_singleton_self k))
    have hfresh : k ∉ front := fun hin => hnodup.2.2 k hin k (List.mem_singleton_self k) rfl
    rw [rowsAmong_snoc]
    cases hrow : table.rowAt k with
    | none =>
      obtain rfl := insertRow_of_none hrow hlast
      have hsame : Function.update (rowsAmong front table.rowAt) k none =
          rowsAmong front table.rowAt :=
        Function.update_eq_self_iff.2 (by simp [rowsAmong, hfresh])
      rw [hsame]
      exact ⟨hmatch, hapart⟩
    | some row =>
      obtain ⟨v, hv, hins⟩ := (insertRow_ok_iff hk hrow).1 hlast
      have hfree : ops.get before h = none := by
        by_contra hsome
        obtain ⟨_, e, herror⟩ :=
          hlawful.insert_taken v hmatch.good (Option.isSome_iff_ne_none.2 hsome)
        rw [hins] at herror
        cases herror
      -- a row before it with the same leaf would have taken it
      have halone : Alone ops (rowsAmong front table.rowAt) k := by
        rintro k' hsome ⟨h₁, h', hk₁, hk', hbytes⟩
        obtain rfl := Option.some.inj (hk.symm.trans hk₁)
        obtain ⟨row', hrow'⟩ := Option.isSome_iff_exists.1 hsome
        obtain ⟨w, -, hget⟩ := hmatch.leaf hk' hrow'
        rw [← hlawful.get_congr before hbytes, hfree] at hget
        cases hget
      obtain ⟨_, hins', hgood, hset⟩ := hlawful.insert_free v hmatch.good hfree
      rw [hins] at hins'
      cases hins'
      exact ⟨hmatch.set hgood hk hv hset halone, hapart.update halone _⟩

theorem matches_of_rebuiltTree (hrebuilt : rebuiltTree ops table = .ok t) :
    Matches ops good table.rowAt t ∧ Apart ops table.rowAt := by
  rw [rebuiltTree_eq] at hrebuilt
  obtain ⟨hmatch, hapart⟩ := matches_foldlM hlawful
    (fun k hk => ((@mem_scanned T ops table k).1 hk).1) (nodup_scanned table) hrebuilt
  have heq := fun k hk => @rowsAmong_scanned T ops table k hk
  exact ⟨hmatch.congr heq, hapart.congr heq⟩

omit hlawful in
lemma typed_of_rebuiltTree (hrebuilt : rebuiltTree ops table = .ok t) (address : Address)
    (slot : Hash) (r : DbRow) (hr : table.lookup (.state (.storage address slot)) = some r) :
    ∃ row, r = .state row := by
  have hsteps : ∀ (ks : List StateKey) (t₀ : T), ks.foldlM (insertRow ops table) t₀ = .ok t →
      ∀ k ∈ ks, ∃ t₁ t₂, insertRow ops table t₁ k = .ok t₂ := by
    intro ks
    induction ks with
    | nil => exact fun _ _ k hk => by cases hk
    | cons k ks ih =>
      intro t₀ hfold k' hk'
      rw [List.foldlM_cons, bind_ok] at hfold
      obtain ⟨t₁, hfirst, hrest⟩ := hfold
      rcases List.mem_cons.1 hk' with rfl | hk'
      · exact ⟨t₀, t₁, hfirst⟩
      · exact ih t₁ hrest k' hk'
  rw [rebuiltTree_eq] at hrebuilt
  obtain ⟨t₁, t₂, hins⟩ := hsteps _ _ hrebuilt (.storage address slot)
    ((@mem_scanned T ops table _).2 ⟨rfl, by rw [hr]; rfl⟩)
  exact typed_of_insertRow hr hins

theorem exists_rebuiltTree
    (htyped : ∀ address slot r, table.lookup (.state (.storage address slot)) = some r →
      ∃ row, r = .state row)
    (hsound : Sound ops table.rowAt) (hapart : Apart ops table.rowAt) :
    ∃ t, rebuiltTree ops table = .ok t := by
  have hfold : ∀ ks : List StateKey, (∀ k ∈ ks, k ∈ scanned table) → ks.Nodup →
      ∃ t, ks.foldlM (insertRow ops table) ops.new = .ok t := by
    intro ks
    induction ks using List.reverseRecOn with
    | nil => exact fun _ _ => ⟨_, rfl⟩
    | append_singleton front k ih =>
      intro hmem hnodup
      rw [List.forall_mem_append] at hmem
      rw [List.nodup_append] at hnodup
      obtain ⟨before, hfront⟩ := ih hmem.1 hnodup.1
      obtain ⟨hmatch, -⟩ := matches_foldlM hlawful
        (fun k hk => ((@mem_scanned T ops table k).1 (hmem.1 k hk)).1) hnodup.1 hfront
      obtain ⟨hleaf, -⟩ := (@mem_scanned T ops table k).1 (hmem.2 k (by simp))
      obtain ⟨h, hk⟩ := Option.isSome_iff_exists.1 hleaf
      suffices hlast : ∃ t, insertRow ops table before k = .ok t by
        obtain ⟨t, hlast⟩ := hlast
        refine ⟨t, ?_⟩
        rw [List.foldlM_append, bind_ok]
        refine ⟨before, hfront, ?_⟩
        simpa only [List.foldlM_cons, List.foldlM_nil, bind_pure] using hlast
      rcases hrow : table.rowAt k with - | row
      · exact ⟨before, insertRow_eq_self hrow fun address slot r hk hr =>
          htyped address slot r (hk ▸ hr)⟩
      obtain ⟨v, hv⟩ := Option.isSome_iff_exists.1 (hsound k h row hk hrow)
      have hfree : ops.get before h = none := by
        rw [Option.eq_none_iff_forall_ne_some]
        intro w hget
        obtain ⟨k', h', hk', hbytes, hsome'⟩ := hmatch.row hget
        unfold rowsAmong at hsome'
        split_ifs at hsome' with hin
        -- no two rows share a leaf
        · have heq := hapart k (by rw [hrow]; rfl) k' hsome' ⟨h, h', hk, hk', hbytes.symm⟩
          exact hnodup.2.2 k (heq ▸ hin) k (by simp) rfl
        · cases hsome'
      obtain ⟨t, hins, -, -⟩ := hlawful.insert_free v hmatch.good hfree
      exact ⟨t, (insertRow_ok_iff hk hrow).2 ⟨v, hv, hins⟩⟩
  rw [rebuiltTree_eq]
  exact hfold _ (fun _ hk => hk) (nodup_scanned table)

end Lawful

end Rebuild

end Sxiaum
