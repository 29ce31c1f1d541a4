-- The vector of the binder library: items in allocated storage that has a capacity. The
-- result of `resize` says the contrary of what it did, as in the source.
import SystemBinder.Base

namespace system_binder

/-- What an `int` keeps of a number. -/
def asInt (n : Int) : Int := (BitVec.ofInt 32 n).toInt

theorem asInt_of_small {n : Int} (h0 : 0 ≤ n) (h : n < 2 ^ 31) : asInt n = n := by
  unfold asInt
  rw [BitVec.toInt_ofInt]
  apply Int.bmod_eq_of_le <;> omega

def VECTOR_INIT_CAPACITY : Int := 16

/-- `VectorBase`. The items below `total` are those of the list. -/
structure VectorBase (α : Type) where
  m_items : List α
  capacity : Int
deriving DecidableEq, Repr

namespace VectorBase

variable {α : Type}

/-- `VectorBase_ctor` -/
def ctor : VectorBase α := ⟨[], VECTOR_INIT_CAPACITY⟩

def total (this : VectorBase α) : Int := this.m_items.length

/-- `VectorBase_resize`. `granted` says whether the memory is to be had: a negative capacity
is a size that no allocator grants. -/
def resize (this : VectorBase α) (capacity : Int) (granted : Bool) : Int × VectorBase α :=
  if granted = true ∧ 0 ≤ capacity then (STATUS_NO_MEMORY, { this with capacity := capacity })
  else (0, this)

/-- `VectorBase_add` -/
def add (this : VectorBase α) (value : α) (granted : Bool) : Except Fault (VectorBase α) :=
  let grown :=
    if this.capacity = this.total then (this.resize (asInt (this.capacity * 2)) granted).2 else this
  if grown.total < grown.capacity then .ok { grown with m_items := grown.m_items ++ [value] }
  else .error .storeOutside

/-- `VectorBase_get`: nothing for `-ENOENT`. -/
def get (this : VectorBase α) (index : Int) : Option α :=
  if 0 ≤ index then this.m_items[index.toNat]? else none

/-- `VectorBase_delete`: nothing for `-ENOENT`. -/
def delete (this : VectorBase α) (index : Int) (granted : Bool) : Option α × VectorBase α :=
  if index < 0 ∨ this.total ≤ index then (none, this)
  else
    let rest := { this with m_items := this.m_items.eraseIdx index.toNat }
    (this.get index,
      if 0 < rest.total ∧ rest.total = rest.capacity.tdiv 4 then
        (rest.resize (rest.capacity.tdiv 2) granted).2
      else rest)

/-- The loop of `VectorImpl_append`. -/
def addMany (this : VectorBase α) (value : α) (granted : Bool) :
    Nat → Except Fault (VectorBase α)
  | 0 => .ok this
  | n + 1 =>
    match this.add value granted with
    | .ok next => next.addMany value granted n
    | .error e => .error e

/-- `VectorImpl_append` -/
def append (this : VectorBase α) (value : α) (numItems : Nat) (granted : Bool) :
    Except Fault (Int × VectorBase α) :=
  if this.capacity < this.total + numItems then
    let resized := this.resize (asInt (this.capacity * 2 + numItems)) granted
    if resized.1 < 0 then .ok (STATUS_NO_MEMORY, resized.2)
    else (resized.2.addMany value granted numItems).map fun v => (STATUS_OK, v)
  else (this.addMany value granted numItems).map fun v => (STATUS_OK, v)

section

variable {v v' : VectorBase α} {value : α} {granted : Bool}

theorem resize_items (capacity : Int) : (v.resize capacity granted).2.m_items = v.m_items := by
  unfold resize
  split <;> rfl

theorem add_items (h : v.add value granted = .ok v') : v'.m_items = v.m_items ++ [value] := by
  have hgrown : (if v.capacity = v.total then (v.resize (asInt (v.capacity * 2)) granted).2
      else v).m_items = v.m_items := by
    split
    · exact resize_items _
    · rfl
  unfold add at h
  simp only at h
  generalize (if v.capacity = v.total then (v.resize (asInt (v.capacity * 2)) granted).2
    else v) = grown at h hgrown
  by_cases hroom : grown.total < grown.capacity
  · rw [if_pos hroom] at h
    cases h
    rw [← hgrown]
  · rw [if_neg hroom] at h
    cases h

end

end VectorBase

end system_binder
