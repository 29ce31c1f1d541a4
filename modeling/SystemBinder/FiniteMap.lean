-- Finite maps as lists whose elements all have different keys. A function says which
-- keys are the same, and the order of the elements does not matter.
import Mathlib

namespace finite_map

variable {α κ : Type}

/-- `same` tells keys apart as an equivalence does. -/
structure Lawful (same : κ → κ → Bool) : Prop where
  refl : ∀ k, same k k = true
  symm : ∀ {k j}, same k j = true → same j k = true
  trans : ∀ {k j i}, same k j = true → same j i = true → same k i = true

variable (key : α → κ) (same : κ → κ → Bool)

/-- The element under the key `k`. -/
def lookup (p : List α) (k : κ) : Option α := p.find? fun e => same (key e) k

/-- The map without the key `k`. -/
def erase (p : List α) (k : κ) : List α := p.filter fun e => !same (key e) k

/-- The map with `e` under its key. -/
def put (p : List α) (e : α) : List α := e :: erase key same p (key e)

/-- No key occurs twice. -/
def KeysDiffer (p : List α) : Prop := p.Pairwise fun a b => same (key a) (key b) = false

variable {key same} {p q : List α} {e : α} {k j : κ}

theorem Lawful.flip (law : Lawful same) (h : same k j = false) : same j k = false := by
  cases hs : same j k with
  | false => rfl
  | true =>
    rw [law.symm hs] at h
    exact h

theorem lookup_eq_none : lookup key same p k = none ↔ ∀ e ∈ p, same (key e) k = false := by
  unfold lookup
  simp

/-- What is found is in the map, under that key. -/
theorem lookup_some (h : lookup key same p k = some e) : e ∈ p ∧ same (key e) k = true := by
  unfold lookup at h
  exact ⟨List.mem_of_find?_eq_some h, List.find?_some (p := fun e => same (key e) k) h⟩

theorem KeysDiffer.eq_of_same (law : Lawful same) (hp : KeysDiffer key same p) {a b : α}
    (ha : a ∈ p) (hb : b ∈ p) (h : same (key a) (key b) = true) : a = b := by
  by_contra hne
  have : Std.Symm fun a b => same (key a) (key b) = false := ⟨fun _ _ h => law.flip h⟩
  have hfar := List.Pairwise.forall hp ha hb hne
  rw [hfar] at h
  cases h

/-- In a map, finding an element under a key says that it is there under that key. -/
theorem lookup_eq_some (law : Lawful same) (hp : KeysDiffer key same p) :
    lookup key same p k = some e ↔ e ∈ p ∧ same (key e) k = true := by
  constructor
  · exact lookup_some
  · rintro ⟨hmem, hsame⟩
    cases hfound : lookup key same p k with
    | none =>
      rw [lookup_eq_none.mp hfound e hmem] at hsame
      cases hsame
    | some d =>
      obtain ⟨hd, hdk⟩ := lookup_some hfound
      rw [hp.eq_of_same law hd hmem (law.trans hdk (law.symm hsame))]

theorem KeysDiffer.perm (law : Lawful same) (h : p.Perm q) (hp : KeysDiffer key same p) :
    KeysDiffer key same q :=
  (h.pairwise_iff fun hd => law.flip hd).mp hp

/-- Two lists of the same elements find the same. -/
theorem lookup_perm (law : Lawful same) (h : p.Perm q) (hp : KeysDiffer key same p) :
    lookup key same p k = lookup key same q k := by
  apply Option.ext
  intro e
  rw [lookup_eq_some law hp, lookup_eq_some law (hp.perm law h), h.mem_iff]

theorem erase_perm (h : p.Perm q) : (erase key same p k).Perm (erase key same q k) :=
  h.filter _

theorem erase_of_absent (h : lookup key same p k = none) : erase key same p k = p := by
  rw [lookup_eq_none] at h
  unfold erase
  apply List.filter_eq_self.mpr
  intro e he
  rw [h e he]
  rfl

/-- Taking one element out of a list with different keys is erasing its key. -/
theorem erase_cons (law : Lawful same) (hp : KeysDiffer key same (e :: p))
    (h : same (key e) k = true) : erase key same (e :: p) k = p := by
  unfold erase
  rw [List.filter_cons_of_neg (by rw [h]; decide)]
  apply List.filter_eq_self.mpr
  intro d hd
  cases hs : same (key d) k with
  | false => rfl
  | true =>
    have hfar := (List.pairwise_cons.mp hp).1 d hd
    rw [law.trans h (law.symm hs)] at hfar
    cases hfar

theorem KeysDiffer.erase (hp : KeysDiffer key same p) :
    KeysDiffer key same (erase key same p k) := List.Pairwise.filter _ hp

theorem KeysDiffer.put (law : Lawful same) (hp : KeysDiffer key same p) :
    KeysDiffer key same (put key same p e) := by
  apply List.Pairwise.cons
  · intro d hd
    have hsame := (List.mem_filter.mp hd).2
    apply law.flip
    simpa using hsame
  · exact hp.erase

/-- What stands under a key after `erase`. -/
theorem lookup_erase (law : Lawful same) : lookup key same (erase key same p k) j =
    if same k j = true then none else lookup key same p j := by
  split
  · rename_i h
    rw [lookup_eq_none]
    intro d hd
    have hfar : same (key d) k = false := by simpa using (List.mem_filter.mp hd).2
    cases hs : same (key d) j with
    | false => rfl
    | true =>
      rw [law.trans hs (law.symm h)] at hfar
      cases hfar
  · rename_i h
    unfold lookup erase
    rw [List.find?_filter]
    congr 1
    funext d
    cases hs : same (key d) j with
    | false => simp
    | true =>
      cases hk : same (key d) k with
      | false => simp
      | true => exact absurd (law.trans (law.symm hk) hs) h

end finite_map
