-- The laws of the vector: over any run it is a list, its storage is as large as its capacity says,
-- and an append that has to enlarge the storage refuses.
import SystemBinder.VectorStorage

open prog memory

namespace system_binder

namespace VectorStorage

variable {s : VectorState} {E : Fault → Prop} {items : List Long} {value : Long} {index : Int}
  {v : VectorStorage}

/-! ## The invariant -/

/-- The items below the count are `items`; the storage has as many as the capacity says, and more
than one, so that a doubling gains room. -/
structure Holds (items : List Long) (v : VectorStorage) : Prop where
  kept : v.m_items.take items.length = items
  total : v.total = items.length
  total_le : v.total ≤ v.capacity
  two_le : 2 ≤ v.capacity
  le_max : v.capacity ≤ INT32_MAX
  stored : (v.m_items.length : Int) = v.capacity

/-- Every request is granted. -/
def Granting (s : VectorState) : Prop := ∀ n, s.memory n = true

theorem Holds.room (h : Holds items v) : items.length ≤ v.m_items.length := by
  have h1 := h.total
  have h2 := h.total_le
  have h3 := h.stored
  omega

theorem Holds.getElem? (h : Holds items v) {i : Nat} (hi : i < items.length) :
    v.m_items[i]? = items[i]? := by
  have hsame := congrArg (fun l => l[i]?) h.kept
  rwa [List.getElem?_take_of_lt hi] at hsame

/-- The contents as they are read item by item. -/
theorem contents_of (hlen : items.length ≤ v.m_items.length)
    (h : ∀ i, i < items.length → v.m_items[i]? = items[i]?) :
    v.m_items.take items.length = items := by
  apply List.ext_getElem?
  intro i
  by_cases hi : i < items.length
  · rw [List.getElem?_take_of_lt hi, h i hi]
  · rw [List.getElem?_eq_none (by rw [List.length_take]; omega),
      List.getElem?_eq_none (by omega)]

/-! ## What the helpers do -/

@[simp] theorem wp_thisVector {Q : VectorStorage → VectorState → Prop} :
    wp thisVector Q E s ↔ Q s.vector s := Iff.rfl

@[simp] theorem wp_update {Q : Unit → VectorState → Prop} {f : VectorStorage → VectorStorage} :
    wp (update f) Q E s ↔ Q () { s with vector := f s.vector } := Iff.rfl

theorem load.spec {Q : Long → VectorState → Prop} {i : Nat} (hindex : index = i)
    (hi : s.vector.m_items[i]? = some value) : wp (load index) Q E s ↔ Q value s := by
  subst hindex
  have hrun : load i s = .ok (value, s) := by
    unfold load
    rw [if_pos (by omega), Int.toNat_natCast, hi]
  exact wp_of_ok hrun

theorem store.spec {Q : Unit → VectorState → Prop} {i : Nat} (hindex : index = i)
    (hi : i < s.vector.m_items.length) :
    wp (store index value) Q E s ↔ Q () { s with vector := { s.vector with
      m_items := s.vector.m_items.set i value } } := by
  subst hindex
  have hin : 0 ≤ (i : Int) ∧ (i : Int) < s.vector.m_items.length := by omega
  have hrun : store i value s = .ok ((), { s with vector := { s.vector with
      m_items := s.vector.m_items.set i value } }) := by
    unfold store
    rw [if_pos hin, Int.toNat_natCast]
  exact wp_of_ok hrun

/-- What a granted resize makes of a state. -/
def resized (s : VectorState) (capacity : Int) : VectorState where
  vector := { s.vector with
    m_items := memory.resized s.vector.m_items capacity.toNat (s.leftover s.requests)
    capacity := capacity }
  memory := s.memory
  requests := s.requests + 1
  leftover := s.leftover

theorem resize.spec {Q : Int → VectorState → Prop} {capacity : Int} (hgranting : Granting s)
    (hcapacity : 0 ≤ capacity) :
    wp (resize capacity) Q E s ↔ Q (-ENOMEM) (resized s capacity) := by
  have hgranted : s.memory s.requests = true ∧ 0 ≤ capacity := ⟨hgranting _, hcapacity⟩
  have hrun : reallocated capacity s =
      .ok (some (memory.resized s.vector.m_items capacity.toNat (s.leftover s.requests)),
        { s with requests := s.requests + 1 }) := by
    unfold reallocated
    rw [if_pos hgranted]
  unfold resize
  rw [wp_bind, wp_of_ok hrun]
  exact Iff.rfl

/-- A resize keeps the items that still have room. -/
theorem Holds.resized {capacity : Int} (h : Holds items s.vector) (htwo : 2 ≤ capacity)
    (hmax : capacity ≤ INT32_MAX) (hroom : (items.length : Int) ≤ capacity) :
    Holds items (resized s capacity).vector where
  kept := by
    have hlen : (VectorStorage.resized s capacity).vector.m_items.length = capacity.toNat :=
      length_resized _ _ _
    apply contents_of (by omega)
    intro i hi
    have hold := h.room
    rw [← h.getElem? hi]
    exact getElem?_resized _ (by omega) (by omega)
  total := h.total
  total_le := by
    show s.vector.total ≤ capacity
    rw [h.total]
    exact hroom
  two_le := htwo
  le_max := hmax
  stored := by
    show ((memory.resized _ _ _).length : Int) = capacity
    rw [length_resized]
    omega

/-! ## What the functions do -/

/-- The capacity after an add. -/
def capacityAfterAdd (v : VectorStorage) : Int :=
  if v.capacity = v.total then v.capacity * 2 else v.capacity

/-- Storing behind the items appends one. -/
theorem Holds.stored_behind (h : Holds items v) (hroom : v.total < v.capacity) (value : Long) :
    Holds (items ++ [value]) { v with
      m_items := v.m_items.set items.length value, total := items.length + 1 } where
  kept := by
    have hstored := h.stored
    have htotal := h.total
    apply contents_of
    · rw [List.length_append, List.length_singleton, List.length_set]
      omega
    · intro i hi
      rw [List.length_append, List.length_singleton] at hi
      rw [List.getElem?_set]
      by_cases hlast : items.length = i
      · subst hlast
        rw [if_pos rfl, if_pos (by omega), List.getElem?_append_right (Nat.le_refl _), Nat.sub_self]
        rfl
      · rw [if_neg hlast, List.getElem?_append_left (by omega)]
        exact h.getElem? (by omega)
  total := by simp
  total_le := by
    have htotal := h.total
    show (items.length : Int) + 1 ≤ v.capacity
    omega
  two_le := h.two_le
  le_max := h.le_max
  stored := by
    show ((v.m_items.set _ _).length : Int) = v.capacity
    rw [List.length_set]
    exact h.stored

/-- An add appends, into storage that is doubled where it is full. -/
theorem add.spec (h : Holds items s.vector) (hgranting : Granting s)
    (hsmall : items.length < 2 ^ 30) :
    wp (add value) (fun total s' => total = (items.length : Int) + 1 ∧
      Holds (items ++ [value]) s'.vector ∧ Granting s' ∧
      s'.vector.capacity = capacityAfterAdd s.vector) E s := by
  have htotal := h.total
  have htwo := h.two_le
  have hmax : INT32_MAX = 2 ^ 31 - 1 := rfl
  have hplus : asInt (s.vector.total + 1) = (items.length : Int) + 1 := by
    rw [htotal]
    exact asInt_of_small (by omega) (by omega)
  -- with a free slot, whatever was done for it
  have hstore : ∀ t : VectorState, Holds items t.vector → Granting t →
      t.vector.total < t.vector.capacity → t.vector.capacity = capacityAfterAdd s.vector →
      wp (do
        store s.vector.total value
        update fun this => { this with total := asInt (this.total + 1) }
        pure (asInt (s.vector.total + 1)))
        (fun total s' => total = (items.length : Int) + 1 ∧
          Holds (items ++ [value]) s'.vector ∧ Granting s' ∧
          s'.vector.capacity = capacityAfterAdd s.vector) E t := by
    intro t ht hgrants hfree hcapacity
    have hstored := ht.stored
    have htotal' := ht.total
    rw [wp_bind, store.spec htotal (by omega), wp_bind, wp_update, wp_pure]
    have hsame : asInt (t.vector.total + 1) = asInt (s.vector.total + 1) := by
      rw [htotal', htotal]
    refine ⟨hplus, ?_, hgrants, hcapacity⟩
    dsimp only
    rw [hsame, hplus]
    exact ht.stored_behind hfree value
  unfold add
  rw [wp_bind, wp_thisVector]
  by_cases hfull : s.vector.capacity = s.vector.total
  · have hdouble : asInt (s.vector.capacity * 2) = s.vector.capacity * 2 :=
      asInt_of_small (by omega) (by omega)
    rw [if_pos hfull, wp_bind, hdouble, resize.spec hgranting (by omega)]
    apply hstore _ (h.resized (by omega) (by omega) (by omega)) hgranting
    · show s.vector.total < s.vector.capacity * 2
      omega
    · unfold capacityAfterAdd
      rw [if_pos hfull]
      rfl
  · have hle := h.total_le
    rw [if_neg hfull]
    apply hstore _ h hgranting (by omega)
    unfold capacityAfterAdd
    rw [if_neg hfull]

/-- The index is that of an item. -/
abbrev InRange (items : List Long) (index : Int) : Prop := 0 ≤ index ∧ index < items.length

/-- What a read at the index returns. -/
def valueAt (items : List Long) (index : Int) : Long :=
  if InRange items index then items.getD index.toNat 0 else BitVec.ofInt 64 (-ENOENT)

theorem set.spec (h : Holds items s.vector) (hgranting : Granting s) :
    wp (set index value) (fun _ s' => Holds (if InRange items index
      then items.set index.toNat value else items) s'.vector ∧ Granting s') E s := by
  have htotal := h.total
  unfold set
  rw [wp_bind, wp_thisVector, htotal]
  by_cases hin : InRange items index
  · obtain ⟨hpos, hlt⟩ := hin
    have hroom := h.room
    rw [if_pos ⟨hpos, hlt⟩, store.spec (Int.toNat_of_nonneg hpos).symm (by omega),
      if_pos ⟨hpos, hlt⟩]
    refine ⟨⟨?_, ?_, h.total_le, h.two_le, h.le_max, ?_⟩, hgranting⟩
    · apply contents_of
      · rw [List.length_set, List.length_set]
        exact hroom
      · intro i hi
        rw [List.length_set] at hi
        rw [List.getElem?_set, List.getElem?_set, h.getElem? hi]
        split
        · rw [if_pos (by omega), if_pos (by omega)]
        · rfl
    · rw [List.length_set]
      exact htotal
    · dsimp only
      rw [List.length_set]
      exact h.stored
  · rw [if_neg hin, if_neg hin]
    exact ⟨h, hgranting⟩

theorem get.spec (h : Holds items s.vector) :
    wp (get index) (fun value s' => value = valueAt items index ∧ s' = s) E s := by
  unfold get valueAt
  rw [wp_bind, wp_thisVector, h.total]
  by_cases hin : InRange items index
  · obtain ⟨hpos, hlt⟩ := hin
    have hread : s.vector.m_items[index.toNat]? = some (items.getD index.toNat 0) := by
      rw [h.getElem? (by omega), List.getD_eq_getElem _ _ (by omega), List.getElem?_eq_getElem]
    rw [if_pos ⟨hpos, hlt⟩, if_pos ⟨hpos, hlt⟩,
      load.spec (Int.toNat_of_nonneg hpos).symm hread]
    exact ⟨rfl, rfl⟩
  · rw [if_neg hin, if_neg hin]
    exact ⟨rfl, rfl⟩

/-- The cells after `n` items from `index + 1` on were moved down by one. -/
structure Shifted (s s' : VectorState) (index n : Nat) : Prop where
  cells : ∀ j, s'.vector.m_items[j]? = if index ≤ j ∧ j < index + n
    then s.vector.m_items[j + 1]? else s.vector.m_items[j]?
  length : s'.vector.m_items.length = s.vector.m_items.length
  total : s'.vector.total = s.vector.total
  capacity : s'.vector.capacity = s.vector.capacity
  memory : s'.memory = s.memory

theorem shift.spec {i n : Nat} (hindex : index = i) (hroom : i + n < s.vector.m_items.length) :
    wp (shift index n) (fun _ s' => Shifted s s' i n) E s := by
  subst hindex
  unfold shift
  have hstart : Shifted s s i 0 := by
    refine ⟨fun j => ?_, rfl, rfl, rfl, rfl⟩
    rw [if_neg (by omega)]
  refine wp_foldlM_range (fun k _ s' => Shifted s s' i k) ?_ hstart
  intro k _ s' hlt hdone
  have hlen := hdone.length
  have hinside : i + k + 1 < s.vector.m_items.length := by omega
  have hread : s'.vector.m_items[i + k + 1]? = some s.vector.m_items[i + k + 1] := by
    rw [hdone.cells, if_neg (by omega), List.getElem?_eq_getElem]
  rw [wp_bind, load.spec (by push_cast; rfl) hread, store.spec (Nat.cast_add i k).symm (by omega)]
  refine ⟨fun j => ?_, ?_, hdone.total, hdone.capacity, hdone.memory⟩
  · dsimp only
    rw [List.getElem?_set, hdone.cells]
    by_cases hj : i + k = j
    · subst hj
      rw [if_pos rfl, if_pos (by omega), if_pos (by omega), List.getElem?_eq_getElem]
    · rw [if_neg hj]
      by_cases hin : i ≤ j ∧ j < i + k
      · rw [if_pos hin, if_pos (by omega)]
      · rw [if_neg hin, if_neg (by omega)]
  · dsimp only
    rw [List.length_set]
    exact hlen

/-- With the items behind the index moved down, the vector has one less. -/
theorem Holds.shifted {s' : VectorState} (h : Holds items s.vector) {i : Nat}
    (hi : i < items.length) (sh : Shifted s s' i (items.length - 1 - i)) :
    Holds (items.eraseIdx i) { s'.vector with total := s'.vector.total - 1 } := by
  have hlen : (items.eraseIdx i).length = items.length - 1 := List.length_eraseIdx_of_lt hi
  have hroom := h.room
  have hcells := sh.length
  have htotal := sh.total
  have hcapacity := sh.capacity
  have hsame := h.total
  have hle := h.total_le
  refine ⟨?_, ?_, ?_, ?_, ?_, ?_⟩
  · apply contents_of
    · dsimp only
      omega
    · intro j hj
      rw [sh.cells, List.getElem?_eraseIdx]
      by_cases hij : j < i
      · rw [if_neg (by omega), if_pos hij]
        exact h.getElem? (by omega)
      · rw [if_pos (by omega), if_neg hij]
        exact h.getElem? (by omega)
  · dsimp only
    omega
  · dsimp only
    omega
  · dsimp only
    rw [hcapacity]
    exact h.two_le
  · dsimp only
    rw [hcapacity]
    exact h.le_max
  · dsimp only
    rw [hcells, hcapacity]
    exact h.stored

/-- The capacity after a delete that leaves so many items. -/
def capacityAfterDelete (v : VectorStorage) (total : Int) : Int :=
  if 0 < total ∧ total = v.capacity.tdiv 4 then v.capacity.tdiv 2 else v.capacity

/-- A delete takes the item out. It halves the storage at a quarter fill, and no further than to
two items. -/
theorem delete.spec (h : Holds items s.vector) (hgranting : Granting s) :
    wp (delete index) (fun value s' => value = valueAt items index ∧
      Holds (if InRange items index then items.eraseIdx index.toNat else items) s'.vector ∧
      Granting s' ∧ s'.vector.capacity = if InRange items index
        then capacityAfterDelete s.vector (items.length - 1) else s.vector.capacity) E s := by
  unfold delete valueAt
  rw [wp_bind, wp_thisVector, h.total]
  by_cases hin : InRange items index
  · obtain ⟨hpos, hlt⟩ := hin
    have hroom := h.room
    have hindex : index = index.toNat := (Int.toNat_of_nonneg hpos).symm
    have hread : s.vector.m_items[index.toNat]? = some (items.getD index.toNat 0) := by
      rw [h.getElem? (by omega), List.getD_eq_getElem _ _ (by omega), List.getElem?_eq_getElem]
    have hcount : ((items.length : Int) - 1 - index).toNat = items.length - 1 - index.toNat := by
      omega
    rw [if_neg (by omega), if_pos ⟨hpos, hlt⟩, if_pos ⟨hpos, hlt⟩, if_pos ⟨hpos, hlt⟩, wp_bind,
      load.spec hindex hread, wp_bind, hcount]
    refine wp_imp (shift.spec hindex (by omega)) fun _ s' sh => ?_
    have h' := h.shifted (by omega) sh
    have hcapacity := sh.capacity
    have hlen : (items.eraseIdx index.toNat).length = items.length - 1 :=
      List.length_eraseIdx_of_lt (by omega)
    rw [wp_bind, wp_update]
    generalize htaken : ({ s' with vector := { s'.vector with
      total := s'.vector.total - 1 } } : VectorState) = t
    have ht : Holds (items.eraseIdx index.toNat) t.vector := by
      rw [← htaken]
      exact h'
    have hmemory : Granting t := by
      unfold Granting
      rw [← htaken]
      dsimp only
      rw [sh.memory]
      exact hgranting
    have htwo := h.two_le
    have hle := h.le_max
    have hhalf : s.vector.capacity.tdiv 2 = s.vector.capacity / 2 :=
      Int.tdiv_eq_ediv_of_nonneg (by omega)
    have hfourth : s.vector.capacity.tdiv 4 = s.vector.capacity / 4 :=
      Int.tdiv_eq_ediv_of_nonneg (by omega)
    by_cases hquarter : 0 < (items.length : Int) - 1 ∧
        (items.length : Int) - 1 = s.vector.capacity.tdiv 4
    · rw [if_pos hquarter, wp_bind, resize.spec hmemory (by omega), wp_pure]
      refine ⟨rfl, ht.resized (by omega) (by omega) (by omega), hmemory, ?_⟩
      unfold capacityAfterDelete
      rw [if_pos hquarter]
      rfl
    · rw [if_neg hquarter]
      refine ⟨rfl, ht, hmemory, ?_⟩
      unfold capacityAfterDelete
      rw [if_neg hquarter, ← htaken]
      exact hcapacity
  · rw [if_pos (by omega), if_neg hin, if_neg hin, if_neg hin]
    exact ⟨rfl, h, hgranting, rfl⟩

/-- A clear leaves no item, and the storage as it was. It calls `freecb` with each. -/
theorem clear.spec {freecb : Bool} (h : Holds items s.vector) (hgranting : Granting s) :
    wp (clear freecb) (fun freed s' => freed = (if freecb = true then items else []) ∧
      Holds [] s'.vector ∧ Granting s') E s := by
  unfold clear
  rw [wp_bind, wp_thisVector, h.total, Int.toNat_natCast, wp_bind]
  refine wp_imp (wp_foldlM_range
    (fun i freed s' => s' = s ∧ freed = if freecb = true then items.take i else []) ?_
    ⟨rfl, by simp⟩) ?_
  · rintro i freed s' hlt ⟨rfl, rfl⟩
    cases freecb with
    | false => exact ⟨rfl, rfl⟩
    | true =>
      have hread := h.getElem? hlt
      rw [List.getElem?_eq_getElem hlt] at hread
      rw [if_pos rfl, if_pos rfl, wp_bind, load.spec rfl hread, wp_pure, if_pos rfl,
        List.take_succ_eq_append_getElem hlt]
      exact ⟨rfl, rfl⟩
  · rintro freed s' ⟨rfl, rfl⟩
    rw [wp_bind, wp_update, wp_pure, List.take_length]
    have htwo := h.two_le
    exact ⟨rfl, ⟨rfl, rfl, by dsimp only; omega, htwo, h.le_max, h.stored⟩, hgranting⟩

/-! ## Runs -/

inductive VectorCall
  | add (value : Long)
  | set (index : Int) (value : Long)
  | get (index : Int)
  | delete (index : Int)
  | clear (freecb : Bool)
deriving DecidableEq, Repr

/-- What a call returns, and what it calls its callback with. -/
inductive VectorAnswer
  | added (total : Int)
  | done
  | value (value : Long)
  | freed (values : List Long)
deriving DecidableEq, Repr

def runCall : VectorCall → Prog VectorState Fault VectorAnswer
  | .add value => do
    let total ← add value
    pure (.added total)
  | .set index value => do
    set index value
    pure .done
  | .get index => do
    let value ← get index
    pure (.value value)
  | .delete index => do
    let value ← delete index
    pure (.value value)
  | .clear freecb => do
    let values ← clear freecb
    pure (.freed values)

/-- A call on a list: what it answers, and the list after it. -/
def onList : VectorCall → List Long → VectorAnswer × List Long
  | .add value, items => (.added (items.length + 1), items ++ [value])
  | .set index value, items =>
    (.done, if InRange items index then items.set index.toNat value else items)
  | .get index, items => (.value (valueAt items index), items)
  | .delete index, items =>
    (.value (valueAt items index), if InRange items index then items.eraseIdx index.toNat else items)
  | .clear freecb, items => (.freed (if freecb = true then items else []), [])

/-- Every list on the way is shorter than `n`. -/
def StaysBelow (n : Nat) : List VectorCall → List Long → Prop
  | [], items => items.length < n
  | call :: rest, items => items.length < n ∧ StaysBelow n rest (onList call items).2

/-- Along the calls the vector answers as a list that starts as `items`, and its invariant holds. -/
def Refines : List VectorCall → List Long → VectorState → Prop
  | [], items, s => Holds items s.vector
  | call :: rest, items, s => Holds items s.vector ∧
    ∃ s', runCall call s = .ok ((onList call items).1, s') ∧ Refines rest (onList call items).2 s'

theorem runCall.spec {call : VectorCall} (h : Holds items s.vector) (hgranting : Granting s)
    (hsmall : items.length < 2 ^ 30) :
    wp (runCall call) (fun answer s' => answer = (onList call items).1 ∧
      Holds (onList call items).2 s'.vector ∧ Granting s') E s := by
  unfold runCall onList
  cases call with
  | add value =>
    dsimp only
    rw [wp_bind]
    refine wp_imp (add.spec h hgranting hsmall) ?_
    rintro total s' ⟨rfl, h', hgrants, -⟩
    exact ⟨rfl, h', hgrants⟩
  | set index value =>
    dsimp only
    rw [wp_bind]
    refine wp_imp (set.spec h hgranting) ?_
    rintro - s' ⟨h', hgrants⟩
    exact ⟨rfl, h', hgrants⟩
  | get index =>
    dsimp only
    rw [wp_bind]
    refine wp_imp (get.spec h) ?_
    rintro value s' ⟨rfl, rfl⟩
    exact ⟨rfl, h, hgranting⟩
  | delete index =>
    dsimp only
    rw [wp_bind]
    refine wp_imp (delete.spec h hgranting) ?_
    rintro value s' ⟨rfl, h', hgrants, -⟩
    exact ⟨rfl, h', hgrants⟩
  | clear freecb =>
    dsimp only
    rw [wp_bind]
    refine wp_imp (clear.spec h hgranting) ?_
    rintro freed s' ⟨rfl, h', hgrants⟩
    exact ⟨rfl, h', hgrants⟩

theorem refines_of_holds {calls : List VectorCall} (hsmall : StaysBelow (2 ^ 30) calls items)
    (h : Holds items s.vector) (hgranting : Granting s) : Refines calls items s := by
  induction calls generalizing items s with
  | nil => exact h
  | cons call rest ih =>
    obtain ⟨hlen, hrest⟩ := hsmall
    obtain ⟨answer, s', hrun, rfl, h', hgrants⟩ :=
      wp_never_iff.mp (runCall.spec h hgranting hlen)
    exact ⟨h, s', hrun, ih hrest h' hgrants⟩

/-- A vector that was never constructed. -/
def unconstructed (memory : Nat → Bool) (leftover : Nat → Nat → Long) : VectorState :=
  ⟨⟨[], 0, 0⟩, memory, 0, leftover⟩

theorem ctor.spec (hgranting : Granting s) :
    wp ctor (fun _ s' => Holds [] s'.vector ∧ Granting s') E s := by
  have hgranted : s.memory s.requests = true ∧ 0 ≤ VECTOR_INIT_CAPACITY := ⟨hgranting _, by decide⟩
  have hrun : ∀ vector : VectorStorage, reallocated VECTOR_INIT_CAPACITY { s with vector := vector } =
      .ok (some (memory.resized vector.m_items 16 (s.leftover s.requests)),
        { s with vector := vector, requests := s.requests + 1 }) := by
    intro vector
    unfold reallocated
    rw [if_pos hgranted]
    rfl
  unfold ctor
  rw [wp_bind, wp_update, wp_bind, wp_of_ok (hrun _), wp_update]
  have hbounds : (0 : Int) ≤ VECTOR_INIT_CAPACITY ∧ 2 ≤ VECTOR_INIT_CAPACITY ∧
    VECTOR_INIT_CAPACITY ≤ INT32_MAX := by decide
  refine ⟨⟨rfl, rfl, hbounds.1, hbounds.2.1, hbounds.2.2, ?_⟩, hgranting⟩
  show ((memory.resized _ 16 _).length : Int) = 16
  rw [length_resized]
  rfl

/-- With the memory to be had and fewer items than half of what an `int` counts, the vector answers
every run of calls as a list does; its count stays between 0 and its capacity, its capacity stays
at least 2, and its storage is as large as that. -/
theorem the_vector_is_a_list (memory : Nat → Bool) (leftover : Nat → Nat → Long)
    (hmemory : ∀ n, memory n = true) (calls : List VectorCall)
    (hsmall : StaysBelow (INT32_MAX / 2) calls []) :
    ∃ s, ctor (unconstructed memory leftover) = .ok ((), s) ∧ Refines calls [] s := by
  obtain ⟨u, s, hrun, h, hgranting⟩ :=
    wp_never_iff.mp (ctor.spec (s := unconstructed memory leftover) hmemory)
  have hless : ∀ (calls : List VectorCall) (items : List Long),
      StaysBelow (INT32_MAX / 2) calls items → StaysBelow (2 ^ 30) calls items := by
    have hmax : INT32_MAX / 2 < 2 ^ 30 := by decide
    intro calls
    induction calls with
    | nil =>
      intro items h
      exact Nat.lt_trans h hmax
    | cons call rest ih =>
      intro items h
      exact ⟨Nat.lt_trans h.1 hmax, ih _ h.2⟩
  exact ⟨s, hrun, refines_of_holds (hless _ _ hsmall) h hgranting⟩

theorem the_vector_is_a_list_of_two_items :
    ∃ s, ctor (unconstructed (fun _ => true) fun _ _ => 7) = .ok ((), s) ∧
      Refines [.add 1, .add 2, .set 5 3, .get 2, .delete 0, .clear true] [] s :=
  the_vector_is_a_list (fun _ => true) (fun _ _ => 7) (fun _ => rfl)
    [.add 1, .add 2, .set 5 3, .get 2, .delete 0, .clear true]
    (by simp [StaysBelow, onList, InRange, INT32_MAX])

/-! ## Appends -/

/-- The items that count. -/
def contents (v : VectorStorage) : List Long := v.m_items.take v.total.toNat

theorem Holds.contents_eq (h : Holds items v) : contents v = items := by
  unfold VectorStorage.contents
  rw [h.total, Int.toNat_natCast]
  exact h.kept

/-- Calls that each append the value append it so many times. Where there is room they do not touch
the storage. -/
theorem times.spec {body : Prog VectorState Fault Unit} {n : Nat} (h : Holds items s.vector)
    (hgranting : Granting s) (hsmall : items.length + n < 2 ^ 30)
    (hbody : body = (do
      let _ ← add value
      pure ())) :
    wp (times n body) (fun _ s' => Holds (items ++ List.replicate n value) s'.vector) E s := by
  unfold times
  refine wp_imp (wp_foldlM_range
    (fun i _ s' => Holds (items ++ List.replicate i value) s'.vector ∧ Granting s') ?_
    ⟨by simpa using h, hgranting⟩) fun _ s' h' => h'.1
  rintro i - s' hlt ⟨h', hgrants⟩
  have hlen : (items ++ List.replicate i value).length < 2 ^ 30 := by
    rw [List.length_append, List.length_replicate]
    omega
  rw [hbody, wp_bind]
  refine wp_imp (add.spec h' hgrants hlen) ?_
  rintro total s'' ⟨-, h'', hgrants', -⟩
  rw [List.append_assoc, ← List.replicate_succ'] at h''
  exact ⟨h'', hgrants'⟩

/-- The append of so many items does what so many pushes do, and says so. -/
def AppendsAsPushes (value : Long) (n : Nat) (s : VectorState) : Prop :=
  ∃ status s₁ u s₂, append value n s = .ok (status, s₁) ∧ times n (push value) s = .ok (u, s₂) ∧
    contents s₁.vector = contents s₂.vector ∧ status = STATUS_OK

/-- With the memory to be had, an append is right exactly where the storage has room for it: where
it enlarges the storage, it takes the success of the resize for an error and adds nothing. -/
theorem an_append_is_pushes_where_there_is_room (s : VectorState) (items : List Long)
    (h : Holds items s.vector) (hgranting : Granting s) (value : Long) (n : Nat)
    (hsmall : items.length + n < INT32_MAX / 4) :
    AppendsAsPushes value n s ↔ s.vector.total + n ≤ s.vector.capacity := by
  have htotal := h.total
  have htwo := h.two_le
  have hle := h.total_le
  have hle_max := h.le_max
  have hmax : INT32_MAX / 4 < 2 ^ 30 ∧ INT32_MAX < 2 ^ 31 := by decide
  have hpushes : wp (times n (push value))
      (fun _ s' => Holds (items ++ List.replicate n value) s'.vector) never s :=
    times.spec h hgranting (by omega) rfl
  have hadds : wp (times n (do
      let _ ← add value
      pure ())) (fun _ s' => Holds (items ++ List.replicate n value) s'.vector) never s :=
    times.spec h hgranting (by omega) rfl
  constructor
  · rintro ⟨status, s₁, u, s₂, happend, -, -, hok⟩
    by_contra hfull
    -- the storage is enlarged, and the result is taken for an error
    have hrun : wp (append value n) (fun status _ => status = STATUS_NO_MEMORY) never s := by
      have hless : s.vector.capacity % 2 ^ 64 < (s.vector.total % 2 ^ 64 + n) % 2 ^ 64 := by omega
      have hdouble : asInt (s.vector.capacity * 2) = s.vector.capacity * 2 :=
        asInt_of_small (by omega) (by omega)
      have hnew : asInt (s.vector.capacity * 2 + n) = s.vector.capacity * 2 + n :=
        asInt_of_small (by omega) (by omega)
      unfold append
      rw [wp_bind, wp_thisVector]
      dsimp only
      rw [if_pos hless, wp_bind, hdouble, hnew, resize.spec hgranting (by omega),
        if_pos (by decide)]
      exact rfl
    have hbad := hrun.of_ok happend
    rw [hok] at hbad
    cases hbad
  · intro hroom
    obtain ⟨u, s₂, hpush, h₂⟩ := wp_never_iff.mp hpushes
    have hfits : ¬s.vector.capacity % 2 ^ 64 < (s.vector.total % 2 ^ 64 + n) % 2 ^ 64 := by omega
    have hrun : wp (append value n) (fun status s₁ => status = STATUS_OK ∧
        Holds (items ++ List.replicate n value) s₁.vector) never s := by
      unfold append
      rw [wp_bind, wp_thisVector]
      dsimp only
      rw [if_neg hfits, wp_bind]
      exact wp_imp hadds fun _ s₁ h₁ => ⟨rfl, h₁⟩
    obtain ⟨status, s₁, happend, hok, h₁⟩ := wp_never_iff.mp hrun
    refine ⟨status, s₁, u, s₂, happend, hpush, ?_, hok⟩
    rw [h₁.contents_eq, h₂.contents_eq]

/-- An append of two where there is room for 16. -/
theorem an_append_is_pushes_where_there_is_room_of_two :
    AppendsAsPushes 5 2 ⟨⟨List.replicate 16 7, 0, 16⟩, fun _ => true, 1, fun _ _ => 7⟩ ↔
      (0 : Int) + (2 : Nat) ≤ 16 :=
  an_append_is_pushes_where_there_is_room
    ⟨⟨List.replicate 16 7, 0, 16⟩, fun _ => true, 1, fun _ _ => 7⟩ []
    ⟨rfl, rfl, by decide, by decide, by decide, rfl⟩ (fun _ => rfl) 5 2 (by decide)

/-- An append of 17 to a new vector adds nothing and says that there is no memory. -/
theorem an_append_of_17_adds_nothing :
    ¬AppendsAsPushes 5 17 ⟨⟨List.replicate 16 7, 0, 16⟩, fun _ => true, 1, fun _ _ => 7⟩ := by
  have hrun : wp (append 5 17) (fun status _ => status = STATUS_NO_MEMORY) never
      ⟨⟨List.replicate 16 7, 0, 16⟩, fun _ => true, 1, fun _ _ => 7⟩ := by decide
  rintro ⟨status, s₁, u, s₂, happend, -, -, hok⟩
  have hbad := hrun.of_ok happend
  rw [hok] at hbad
  cases hbad

end VectorStorage

end system_binder
