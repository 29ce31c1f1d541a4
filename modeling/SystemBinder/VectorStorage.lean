-- The vector with its storage: the allocated items, those past the count too, and the count and the
-- capacity as the source keeps them.
import SystemBinder.Vector
import SystemBinder.Memory

open prog memory

namespace system_binder

/-- `VectorBase`, with the items that are allocated: none for a NULL pointer. -/
structure VectorStorage where
  m_items : List Long
  total : Int
  capacity : Int
deriving DecidableEq, Repr

/-- A vector and the allocator: `memory n` says whether request `n` is granted, and `leftover n i`
what the new item `i` of that request holds. -/
structure VectorState where
  vector : VectorStorage
  memory : Nat → Bool
  requests : Nat
  leftover : Nat → Nat → Long

namespace VectorStorage

/-! ## Reaching the state -/

def thisVector : Prog VectorState Fault VectorStorage := fun s => .ok (s.vector, s)

def update (f : VectorStorage → VectorStorage) : Prog VectorState Fault Unit := fun s =>
  .ok ((), { s with vector := f s.vector })

/-- `realloc` of the items: nothing where the memory is not to be had. The size of a negative
count is one that no allocator grants. -/
def reallocated (count : Int) : Prog VectorState Fault (Option (List Long)) := fun s =>
  .ok (if s.memory s.requests = true ∧ 0 ≤ count
    then some (resized s.vector.m_items count.toNat (s.leftover s.requests)) else none,
    { s with requests := s.requests + 1 })

/-- Reads `this->m_items[index].value`. -/
def load (index : Int) : Prog VectorState Fault Long := fun s =>
  match if 0 ≤ index then s.vector.m_items[index.toNat]? else none with
  | some value => .ok (value, s)
  | none => .error .loadOutside

/-- `this->m_items[index].value = value` -/
def store (index : Int) (value : Long) : Prog VectorState Fault Unit := fun s =>
  if 0 ≤ index ∧ index < s.vector.m_items.length
  then .ok ((), { s with vector := { s.vector with
    m_items := s.vector.m_items.set index.toNat value } })
  else .error .storeOutside

/-! ## The functions of a vector -/

/-- `VectorBase_ctor`. The result of `malloc` is not looked at. -/
def ctor : Prog VectorState Fault Unit := do
  update fun _ => ⟨[], 0, VECTOR_INIT_CAPACITY⟩
  let items ← reallocated VECTOR_INIT_CAPACITY
  update fun this => { this with m_items := items.getD [] }

/-- `VectorBase_resize`: `-ENOMEM` where the memory was there, and 0 where it was not. -/
def resize (capacity : Int) : Prog VectorState Fault Int := do
  match ← reallocated capacity with
  | some items => do
    update fun this => { this with m_items := items, capacity := capacity }
    pure (-ENOMEM)
  | none => pure 0

/-- `VectorBase_add` -/
def add (value : Long) : Prog VectorState Fault Int := do
  let this ← thisVector
  if this.capacity = this.total then do
    let _ ← resize (asInt (this.capacity * 2))
    pure ()
  store this.total value
  update fun this => { this with total := asInt (this.total + 1) }
  pure (asInt (this.total + 1))

/-- `VectorBase_set` -/
def set (index : Int) (value : Long) : Prog VectorState Fault Unit := do
  let this ← thisVector
  if 0 ≤ index ∧ index < this.total then store index value else pure ()

/-- `VectorBase_get` -/
def get (index : Int) : Prog VectorState Fault Long := do
  let this ← thisVector
  if 0 ≤ index ∧ index < this.total then load index else pure (BitVec.ofInt 64 (-ENOENT))

/-- The loop of `VectorBase_delete`: `n` items are moved down, the first one to `index`. -/
def shift (index : Int) (n : Nat) : Prog VectorState Fault Unit :=
  (List.range n).foldlM (fun _ (k : Nat) => do
    let value ← load (index + k + 1)
    store (index + k) value) ()

/-- `VectorBase_delete` -/
def delete (index : Int) : Prog VectorState Fault Long := do
  let this ← thisVector
  if index < 0 ∨ this.total ≤ index then pure (BitVec.ofInt 64 (-ENOENT))
  else do
    let value ← load index
    shift index (this.total - 1 - index).toNat
    update fun this => { this with total := this.total - 1 }
    if 0 < this.total - 1 ∧ this.total - 1 = this.capacity.tdiv 4 then do
      let _ ← resize (this.capacity.tdiv 2)
      pure ()
    pure value

/-- `VectorBase_clear`: the values that `freecb` is called with, where there is one. -/
def clear (freecb : Bool) : Prog VectorState Fault (List Long) := do
  let this ← thisVector
  let freed ← (List.range this.total.toNat).foldlM (fun (freed : List Long) (i : Nat) =>
    if freecb = true then do
      let value ← load i
      pure (freed ++ [value])
    else pure freed) []
  update fun this => { this with total := 0 }
  pure freed

/-- `VectorImpl_push` -/
def push (value : Long) : Prog VectorState Fault Unit := do
  let _ ← add value
  pure ()

/-- A loop of `n` calls of `VectorBase_add` or of what calls it. -/
def times (n : Nat) (body : Prog VectorState Fault Unit) : Prog VectorState Fault Unit :=
  (List.range n).foldlM (fun _ _ => body) ()

/-- `VectorImpl_append`. The count and the capacity are converted to `size_t`, and the new capacity
back to `int`. -/
def append (value : Long) (numItems : Nat) : Prog VectorState Fault Int := do
  let this ← thisVector
  let addAll : Prog VectorState Fault Int := do
    times numItems (do
      let _ ← add value
      pure ())
    pure STATUS_OK
  if (this.capacity % 2 ^ 64) < (this.total % 2 ^ 64 + numItems) % 2 ^ 64 then do
    let status ← resize (asInt (asInt (this.capacity * 2) + numItems))
    if status < 0 then pure STATUS_NO_MEMORY else addAll
  else addAll

end VectorStorage

end system_binder
