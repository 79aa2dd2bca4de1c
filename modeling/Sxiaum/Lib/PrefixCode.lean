import Mathlib.Data.List.Basic

/-!
# Codes that can be read off the front

Records are hashed as the concatenation of the codes of their fields. Such a concatenation
says which fields went in if each code can be *read off* the front of any text that starts
with it: the text determines the value and the rest. Codes of one length and lists behind
their length can be read off, and so can one code after another.
-/

namespace PrefixCode

variable {α β : Type*}

/-- A code of the values with property `P` can be read off the front of a text. -/
def ReadsOff (P : α → Prop) (code : α → List β) : Prop :=
  ∀ a a' : α, P a → P a' → ∀ rest rest' : List β, code a ++ rest = code a' ++ rest' →
    a = a' ∧ rest = rest'

variable {P : α → Prop} {code : α → List β}

/-- An injective code whose words have one length. -/
lemma ReadsOff.of_length {n : ℕ} (hlength : ∀ a, P a → (code a).length = n)
    (hinj : ∀ a a', P a → P a' → code a = code a' → a = a') : ReadsOff P code := by
  intro a a' ha ha' rest rest' h
  have hsame : (code a).length = (code a').length := (hlength a ha).trans (hlength a' ha').symm
  obtain ⟨hcode, hrest⟩ := List.append_inj h hsame
  exact ⟨hinj a a' ha ha' hcode, hrest⟩

lemma ReadsOff.injective (hcode : ReadsOff P code) {a a' : α} (ha : P a) (ha' : P a')
    (h : code a = code a') : a = a' :=
  (hcode a a' ha ha' [] [] (by rw [h])).1

/-- Two lists of the same length, code word after code word. -/
lemma ReadsOff.flatMap (hcode : ReadsOff P code) {xs ys : List α} {rest rest' : List β}
    (hxs : ∀ a ∈ xs, P a) (hys : ∀ a ∈ ys, P a) (hlength : xs.length = ys.length)
    (h : xs.flatMap code ++ rest = ys.flatMap code ++ rest') : xs = ys ∧ rest = rest' := by
  induction xs generalizing ys with
  | nil =>
    obtain rfl : ys = [] := List.length_eq_zero_iff.1 hlength.symm
    exact ⟨rfl, h⟩
  | cons x xs ih =>
    obtain _ | ⟨y, ys⟩ := ys
    · cases hlength
    · rw [List.flatMap_cons, List.flatMap_cons, List.append_assoc, List.append_assoc] at h
      obtain ⟨rfl, htail⟩ := hcode x y (hxs x List.mem_cons_self) (hys y List.mem_cons_self) _ _ h
      obtain ⟨rfl, hrest⟩ := ih (fun a ha => hxs a (List.mem_cons_of_mem _ ha))
        (fun a ha => hys a (List.mem_cons_of_mem _ ha)) (Nat.succ.inj hlength) htail
      exact ⟨rfl, hrest⟩

variable {N : ℕ → Prop} {count : ℕ → List β}

lemma ReadsOff.counted (hcount : ReadsOff N count) (hcode : ReadsOff P code) :
    ReadsOff (fun xs : List α => N xs.length ∧ ∀ a ∈ xs, P a)
      fun xs => count xs.length ++ xs.flatMap code := by
  rintro xs ys ⟨hxs, hPxs⟩ ⟨hys, hPys⟩ rest rest' h
  rw [List.append_assoc, List.append_assoc] at h
  obtain ⟨hlength, h⟩ := hcount _ _ hxs hys _ _ h
  exact hcode.flatMap hPxs hPys hlength h

lemma ReadsOff.text (hcount : ReadsOff N count) :
    ReadsOff (fun text : List β => N text.length) fun text => count text.length ++ text := by
  intro text text' htext htext' rest rest' h
  rw [List.append_assoc, List.append_assoc] at h
  obtain ⟨hlength, h⟩ := hcount _ _ htext htext' _ _ h
  exact List.append_inj h hlength

end PrefixCode
