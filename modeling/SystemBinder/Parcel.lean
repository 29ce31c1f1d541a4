-- The Parcel: a growing buffer of bytes with a table of the offsets at which
-- binder objects stand. What a Parcel function reaches is its parcel, the
-- allocator, and the rest of the process, which it only calls.
import SystemBinder.BinderString

open prog memory

namespace system_binder

/-! ## The data -/

/-- The functions that `mOwner` may point to. -/
inductive ReleaseFunc
  | freeBuffer
deriving DecidableEq, Repr

structure Parcel where
  mData : Option (Block UInt8)
  mDataSize : Nat
  mDataCapacity : Nat
  mDataPos : Nat
  mError : Int
  mObjects : Option (Block Nat)
  mObjectsSize : Nat
  mObjectsCapacity : Nat
  mNextObjectHint : Nat
  mObjectsSorted : Bool
  mRequestHeaderPresent : Bool
  mWorkSourceRequestHeaderPosition : Nat
  mFdsKnown : Bool
  mHasFds : Bool
  mAllowFds : Bool
  mDeallocZero : Bool
  mOwner : Option ReleaseFunc
deriving DecidableEq, Repr

/-- `struct flat_binder_object`. `binder` is a union: its low half is `handle`. -/
structure FlatBinderObject where
  type : BitVec 32
  flags : BitVec 32
  binder : BitVec 64
  cookie : BitVec 64
deriving DecidableEq, Repr

/-- `sizeof(struct flat_binder_object)` -/
def FLAT_SIZE : Nat := 24

def BINDER_TYPE_BINDER : BitVec 32 := 0x73622a85#32
def BINDER_TYPE_HANDLE : BitVec 32 := 0x73682a85#32
def BINDER_TYPE_FD : BitVec 32 := 0x66642a85#32

def FLAT_BINDER_FLAG_ACCEPTS_FDS : BitVec 32 := 0x100#32

def STATUS_FDS_NOT_ALLOWED : Int := INT32_MIN + 7

namespace FlatBinderObject

def handle (obj : FlatBinderObject) : BitVec 32 := obj.binder.setWidth 32

/-- `obj.handle = handle`. The other half of the union stays. -/
def setHandle (obj : FlatBinderObject) (handle : BitVec 32) : FlatBinderObject :=
  { obj with binder := obj.binder.extractLsb' 32 32 ++ handle }

/-- Where the union was zeroed first, nothing else is in it. -/
theorem setHandle_zero (type flags : BitVec 32) (cookie : BitVec 64) (handle : BitVec 32) :
    setHandle ⟨type, flags, 0, cookie⟩ handle = ⟨type, flags, handle.setWidth 64, cookie⟩ := by
  have hzero : BitVec.extractLsb' 32 32 (0 : BitVec 64) = 0#32 := by decide
  unfold setHandle
  rw [BitVec.setWidth_eq_append (by decide), hzero]
  rfl

def toBytes (obj : FlatBinderObject) : List UInt8 :=
  wordBytes 4 obj.type ++ wordBytes 4 obj.flags ++ wordBytes 8 obj.binder ++ wordBytes 8 obj.cookie

def ofBytes (bs : List UInt8) : FlatBinderObject where
  type := bytesWord 32 (window bs 0 4)
  flags := bytesWord 32 (window bs 4 4)
  binder := bytesWord 64 (window bs 8 8)
  cookie := bytesWord 64 (window bs 16 8)

end FlatBinderObject

/-- The allocator and what it left in fresh memory. `fresh n` is what request `n` gets:
nothing, or cells that hold anything. `leftover n` is what the `n`-th uninitialised
local variable holds. `freed` keeps the data blocks as they were when they were given back, and
`freedTables` the object tables that `Parcel_freeDataNoInit` gave back: a table that `realloc`
moved, or that a cut freed, is not among them. -/
structure Heap where
  fresh : Nat → Option (Nat → Nat)
  requests : Nat
  leftover : Nat → BitVec 32
  locals : Nat
  freed : List (Block UInt8)
  freedTables : List (Block Nat)
  gParcelGlobalAllocSize : Nat
  gParcelGlobalAllocCount : Nat

/-- What a Parcel function works on. -/
structure Ctx (W : Type) where
  parcel : Parcel
  heap : Heap
  world : W

/-- The functions outside `Parcel.c` that it calls on objects, handles and files.
An object is the address of its `IBinder`, 0 for NULL. -/
structure Outside (W : Type) where
  incStrong : BitVec 64 → Prog W Fault Unit
  decStrong : BitVec 64 → Prog W Fault Unit
  getStrongProxyForHandle : BitVec 32 → Prog W Fault (BitVec 64)
  close : BitVec 32 → Prog W Fault Unit
  freeBuffer : Nat → Prog W Fault Unit

variable {W α : Type}

/-- The sum of sizes as `size_t` computes it. -/
def sz (n : Nat) : Nat := n % 2 ^ 64

/-- The difference of sizes as `size_t` computes it. -/
@[irreducible] def szSub (m n : Nat) : Nat := if n ≤ m then m - n else m + 2 ^ 64 - n

namespace Heap

/-- After one more request. -/
def next (h : Heap) : Heap := { h with requests := h.requests + 1 }

/-- After one more uninitialised variable. -/
def nextLocal (h : Heap) : Heap := { h with locals := h.locals + 1 }

/-- After an uninitialised variable of `n` words. -/
def nextLocals (n : Nat) (h : Heap) : Heap := { h with locals := h.locals + n }

/-- After a data block was given back. -/
def giveBack (b : Block UInt8) (h : Heap) : Heap := { h with freed := h.freed ++ [b] }

/-- After an object table was given back. -/
def giveBackTable (t : Block Nat) (h : Heap) : Heap := { h with freedTables := h.freedTables ++ [t] }

/-- `gParcelGlobalAllocSize += size` -/
def addSize (size : Nat) (h : Heap) : Heap :=
  { h with gParcelGlobalAllocSize := sz (h.gParcelGlobalAllocSize + size) }

/-- `gParcelGlobalAllocSize -= size` -/
def subSize (size : Nat) (h : Heap) : Heap :=
  { h with gParcelGlobalAllocSize := szSub h.gParcelGlobalAllocSize size }

/-- `gParcelGlobalAllocCount++` -/
def incCount (h : Heap) : Heap :=
  { h with gParcelGlobalAllocCount := sz (h.gParcelGlobalAllocCount + 1) }

/-- `gParcelGlobalAllocCount--` -/
def decCount (h : Heap) : Heap :=
  { h with gParcelGlobalAllocCount := szSub h.gParcelGlobalAllocCount 1 }

@[simp] theorem next_fresh (h : Heap) : h.next.fresh = h.fresh := rfl
@[simp] theorem nextLocal_fresh (h : Heap) : h.nextLocal.fresh = h.fresh := rfl
@[simp] theorem giveBack_fresh (b : Block UInt8) (h : Heap) : (h.giveBack b).fresh = h.fresh := rfl
@[simp] theorem addSize_fresh (n : Nat) (h : Heap) : (h.addSize n).fresh = h.fresh := rfl
@[simp] theorem subSize_fresh (n : Nat) (h : Heap) : (h.subSize n).fresh = h.fresh := rfl
@[simp] theorem incCount_fresh (h : Heap) : h.incCount.fresh = h.fresh := rfl
@[simp] theorem decCount_fresh (h : Heap) : h.decCount.fresh = h.fresh := rfl

end Heap

variable {W α : Type}

namespace Ctx

def mapParcel (f : Parcel → Parcel) (c : Ctx W) : Ctx W := { c with parcel := f c.parcel }

def mapHeap (f : Heap → Heap) (c : Ctx W) : Ctx W := { c with heap := f c.heap }

def setWorld (w : W) (c : Ctx W) : Ctx W := { c with world := w }

@[simp] theorem parcel_mapParcel (f : Parcel → Parcel) (c : Ctx W) :
    (c.mapParcel f).parcel = f c.parcel := rfl
@[simp] theorem heap_mapParcel (f : Parcel → Parcel) (c : Ctx W) :
    (c.mapParcel f).heap = c.heap := rfl
@[simp] theorem world_mapParcel (f : Parcel → Parcel) (c : Ctx W) :
    (c.mapParcel f).world = c.world := rfl
@[simp] theorem parcel_mapHeap (f : Heap → Heap) (c : Ctx W) :
    (c.mapHeap f).parcel = c.parcel := rfl
@[simp] theorem heap_mapHeap (f : Heap → Heap) (c : Ctx W) :
    (c.mapHeap f).heap = f c.heap := rfl
@[simp] theorem world_mapHeap (f : Heap → Heap) (c : Ctx W) :
    (c.mapHeap f).world = c.world := rfl
@[simp] theorem parcel_setWorld (w : W) (c : Ctx W) : (c.setWorld w).parcel = c.parcel := rfl
@[simp] theorem heap_setWorld (w : W) (c : Ctx W) : (c.setWorld w).heap = c.heap := rfl
@[simp] theorem world_setWorld (w : W) (c : Ctx W) : (c.setWorld w).world = w := rfl

end Ctx

/-! ## Reaching the state -/

def thisParcel : Prog (Ctx W) Fault Parcel := fun c => .ok (c.parcel, c)

def update (f : Parcel → Parcel) : Prog (Ctx W) Fault Unit := fun c => .ok ((), c.mapParcel f)

def updateHeap (f : Heap → Heap) : Prog (Ctx W) Fault Unit := fun c => .ok ((), c.mapHeap f)

/-- A call of a function outside. What goes wrong there is marked as such. -/
def outside (m : Prog W Fault α) : Prog (Ctx W) Fault α := fun c =>
  match m c.world with
  | .ok (a, w) => .ok (a, c.setWorld w)
  | .error e => .error (.inCall e)

/-- What an uninitialised `int32_t` holds. -/
def indeterminate : Prog (Ctx W) Fault (BitVec 32) := fun c =>
  .ok (c.heap.leftover c.heap.locals, c.mapHeap Heap.nextLocal)

/-- What an uninitialised `flat_binder_object` holds. -/
def indeterminateObject : Prog (Ctx W) Fault FlatBinderObject := fun c =>
  let word := fun i => c.heap.leftover (c.heap.locals + i)
  .ok ({ type := word 0, flags := word 1, binder := word 3 ++ word 2, cookie := word 5 ++ word 4 },
    c.mapHeap (Heap.nextLocals 6))

/-- The bytes of fresh memory. -/
def freshByte (g : Nat → Nat) (i : Nat) : UInt8 := UInt8.ofNat (g i)

/-- The words of fresh memory. -/
def freshWord (g : Nat → Nat) (i : Nat) : Nat := sz (g i)

/-- A request to the allocator: a new block with the cells that `make` finds there. -/
def allocate {β : Type} (make : (Nat → Nat) → List β) : Prog (Ctx W) Fault (Option (Block β)) :=
  fun c => .ok ((c.heap.fresh c.heap.requests).map fun g => ⟨c.heap.requests, make g⟩,
    c.mapHeap Heap.next)

def malloc (n : Nat) : Prog (Ctx W) Fault (Option (Block UInt8)) :=
  allocate fun g => resized [] n (freshByte g)

/-- `calloc` of `n` offsets. -/
def callocObjects (n : Nat) : Prog (Ctx W) Fault (Option (Block Nat)) :=
  allocate fun _ => List.replicate n 0

/-- `realloc` of the offsets to room for `n` of them. -/
def reallocObjects (old : Option (Block Nat)) (n : Nat) :
    Prog (Ctx W) Fault (Option (Block Nat)) :=
  allocate fun g => resized ((old.map Block.cells).getD []) n (freshWord g)

/-- Reads `n` bytes at `mData + pos`. -/
def loadData (pos n : Nat) : Prog (Ctx W) Fault (List UInt8) := fun c =>
  match c.parcel.mData with
  | none => if n = 0 then .ok ([], c) else .error .nullPointer
  | some b =>
    if pos + n ≤ b.cells.length then .ok (window b.cells pos n, c) else .error .loadOutside

/-- Stores some bytes at `mData + pos`. -/
def storeData (pos : Nat) (xs : List UInt8) : Prog (Ctx W) Fault Unit := fun c =>
  match c.parcel.mData with
  | none => if xs = [] then .ok ((), c) else .error .nullPointer
  | some b =>
    if pos + xs.length ≤ b.cells.length then
      .ok ((), c.mapParcel fun p => { p with
        mData := some { b with cells := overlay b.cells pos xs } })
    else .error .storeOutside

/-- Reads `mObjects[i]`. -/
def loadObject (i : Nat) : Prog (Ctx W) Fault Nat := fun c =>
  match c.parcel.mObjects with
  | none => .error .nullPointer
  | some t =>
    match t.cells[i]? with
    | some o => .ok (o, c)
    | none => .error .loadOutside

/-- Stores `mObjects[i] = o`. -/
def storeObject (i o : Nat) : Prog (Ctx W) Fault Unit := fun c =>
  match c.parcel.mObjects with
  | none => .error .nullPointer
  | some t =>
    if i < t.cells.length then
      .ok ((), c.mapParcel fun p => { p with
        mObjects := some { t with cells := overlay t.cells i [o] } })
    else .error .storeOutside

/-- The object at `mData + mObjects[i]`. -/
def loadFlat (i : Nat) : Prog (Ctx W) Fault FlatBinderObject := do
  let o ← loadObject i
  let bs ← loadData o FLAT_SIZE
  pure (.ofBytes bs)

/-! ## What reaching the state does -/

section Rules

variable {c : Ctx W} {E : Fault → Prop}

@[simp] theorem wp_thisParcel {Q : Parcel → Ctx W → Prop} :
    wp thisParcel Q E c ↔ Q c.parcel c := Iff.rfl

@[simp] theorem wp_update {Q : Unit → Ctx W → Prop} (f : Parcel → Parcel) :
    wp (update f) Q E c ↔ Q () (c.mapParcel f) := Iff.rfl

@[simp] theorem wp_updateHeap {Q : Unit → Ctx W → Prop} (f : Heap → Heap) :
    wp (updateHeap f) Q E c ↔ Q () (c.mapHeap f) := Iff.rfl

@[simp] theorem wp_indeterminate {Q : BitVec 32 → Ctx W → Prop} :
    wp indeterminate Q E c ↔
      Q (c.heap.leftover c.heap.locals) (c.mapHeap Heap.nextLocal) := Iff.rfl

theorem wp_indeterminateObject {Q : FlatBinderObject → Ctx W → Prop}
    (hQ : ∀ obj, Q obj (c.mapHeap (Heap.nextLocals 6))) : wp indeterminateObject Q E c := hQ _

theorem wp_outside {Q : α → Ctx W → Prop} (m : Prog W Fault α) :
    wp (outside m) Q E c ↔
      wp m (fun a w => Q a (c.setWorld w)) (fun e => E (.inCall e)) c.world := by
  unfold wp outside
  rcases m c.world with e | ⟨a, w⟩ <;> exact Iff.rfl

theorem wp_allocate {β : Type} {Q : Option (Block β) → Ctx W → Prop}
    (make : (Nat → Nat) → List β) :
    wp (allocate make) Q E c ↔
      Q ((c.heap.fresh c.heap.requests).map fun g => ⟨c.heap.requests, make g⟩)
        (c.mapHeap Heap.next) := Iff.rfl

/-- The cells of the data, none without data. -/
def Parcel.cells (p : Parcel) : List UInt8 := (p.mData.map Block.cells).getD []

/-- The cells of the object table. -/
def Parcel.table (p : Parcel) : List Nat := (p.mObjects.map Block.cells).getD []

/-- The pointer `mData + pos`: a position in the data, or nothing for NULL. -/
def Parcel.place (p : Parcel) (pos : Nat) : Option Nat := p.mData.map fun _ => pos

/-- A read inside the data returns it. -/
theorem wp_loadData {Q : List UInt8 → Ctx W → Prop} {pos n : Nat}
    (h : pos + n ≤ c.parcel.cells.length) :
    wp (loadData pos n) Q E c ↔ Q (window c.parcel.cells pos n) c := by
  unfold wp loadData
  unfold Parcel.cells at h ⊢
  rcases hd : c.parcel.mData with _ | b
  · rw [hd] at h
    have hn : n = 0 := by
      simp only [Option.map_none, Option.getD_none, List.length_nil] at h
      omega
    simp only [hn, if_true, window_zero]
  · rw [hd] at h
    have hb : pos + n ≤ b.cells.length := h
    simp only [if_pos hb, Option.map_some, Option.getD_some]

/-- The parcel after a store of `xs` at `pos`. -/
def Parcel.stored (p : Parcel) (pos : Nat) (xs : List UInt8) : Parcel :=
  { p with mData := p.mData.map fun b => { b with cells := overlay b.cells pos xs } }

theorem wp_storeData {Q : Unit → Ctx W → Prop} {pos : Nat} {xs : List UInt8}
    (h : pos + xs.length ≤ c.parcel.cells.length) :
    wp (storeData pos xs) Q E c ↔ Q () (c.mapParcel fun p => p.stored pos xs) := by
  unfold wp storeData
  unfold Parcel.cells at h
  rcases hd : c.parcel.mData with _ | b
  · rw [hd] at h
    have hx : xs = [] := by
      simp only [Option.map_none, Option.getD_none, List.length_nil] at h
      exact List.length_eq_zero_iff.mp (by omega)
    have hs : c.mapParcel (fun p => p.stored pos xs) = c := by
      simp only [Ctx.mapParcel, Parcel.stored, hd, Option.map_none]
      rw [← hd]
    rw [hs]
    simp only [hx, if_true]
  · rw [hd] at h
    have hb : pos + xs.length ≤ b.cells.length := h
    simp only [if_pos hb, Ctx.mapParcel, Parcel.stored, hd, Option.map_some]

@[simp] theorem Parcel.place_stored (p : Parcel) (pos q : Nat) (xs : List UInt8) :
    (p.stored q xs).place pos = p.place pos := by
  unfold Parcel.place Parcel.stored
  rcases p.mData with _ | b <;> rfl

theorem Parcel.cells_stored {p : Parcel} {pos : Nat} {xs : List UInt8}
    (h : pos + xs.length ≤ p.cells.length) : (p.stored pos xs).cells = overlay p.cells pos xs := by
  unfold Parcel.cells Parcel.stored at *
  rcases hd : p.mData with _ | b
  · rw [hd] at h
    have hx : xs = [] := by
      simp only [Option.map_none, Option.getD_none, List.length_nil] at h
      exact List.length_eq_zero_iff.mp (by omega)
    simp [hx, overlay]
  · rfl

theorem wp_loadObject {Q : Nat → Ctx W → Prop} {i o : Nat} (h : c.parcel.table[i]? = some o) :
    wp (loadObject i) Q E c ↔ Q o c := by
  unfold wp loadObject
  unfold Parcel.table at h
  rcases ht : c.parcel.mObjects with _ | t
  · rw [ht] at h
    cases h
  · rw [ht] at h
    have hi : t.cells[i]? = some o := h
    simp only [hi]

/-- The parcel after a store of the offset `o` at `mObjects[i]`. -/
def Parcel.listed (p : Parcel) (i o : Nat) : Parcel :=
  { p with mObjects := p.mObjects.map fun t => { t with cells := overlay t.cells i [o] } }

theorem wp_storeObject {Q : Unit → Ctx W → Prop} {i o : Nat} (h : i < c.parcel.table.length) :
    wp (storeObject i o) Q E c ↔ Q () (c.mapParcel fun p => p.listed i o) := by
  unfold wp storeObject
  unfold Parcel.table at h
  rcases ht : c.parcel.mObjects with _ | t
  · rw [ht] at h
    simp at h
  · rw [ht] at h
    have hi : i < t.cells.length := h
    simp only [if_pos hi, Ctx.mapParcel, Parcel.listed, ht, Option.map_some]

theorem Parcel.table_listed {p : Parcel} {i o : Nat} (h : i < p.table.length) :
    (p.listed i o).table = overlay p.table i [o] := by
  unfold Parcel.table Parcel.listed at *
  rcases ht : p.mObjects with _ | t
  · rw [ht] at h
    simp at h
  · rfl

end Rules

namespace Parcel

/-! ## Objects -/

section Objects

variable (x : Outside W)

/-- `acquire_object` -/
def acquire_object (obj : FlatBinderObject) : Prog W Fault Unit := do
  if obj.type = BINDER_TYPE_BINDER then
    if obj.binder ≠ 0 then x.incStrong obj.cookie else pure ()
  else if obj.type = BINDER_TYPE_HANDLE then do
    let ibinder ← x.getStrongProxyForHandle obj.handle
    if ibinder ≠ 0 then x.incStrong ibinder else pure ()
  else pure ()

/-- `release_object` -/
def release_object (obj : FlatBinderObject) : Prog W Fault Unit := do
  if obj.type = BINDER_TYPE_BINDER then
    if obj.binder ≠ 0 then x.decStrong obj.cookie else pure ()
  else if obj.type = BINDER_TYPE_HANDLE then do
    let ibinder ← x.getStrongProxyForHandle obj.handle
    if ibinder ≠ 0 then x.decStrong ibinder else pure ()
  else if obj.type = BINDER_TYPE_FD then
    if obj.cookie ≠ 0 then x.close obj.handle else pure ()
  else pure ()

/-- The loop of `Parcel_releaseObjects`, from the last object down. -/
def releaseDown : Nat → Prog (Ctx W) Fault Unit
  | 0 => pure ()
  | i + 1 => do
    let flat ← loadFlat i
    outside (release_object x flat)
    releaseDown i

/-- `Parcel_releaseObjects` -/
def releaseObjects : Prog (Ctx W) Fault Unit := do
  let p ← thisParcel
  releaseDown x p.mObjectsSize

/-- The loop of `Parcel_acquireObjects`, from the last object down. -/
def acquireDown : Nat → Prog (Ctx W) Fault Unit
  | 0 => pure ()
  | i + 1 => do
    let flat ← loadFlat i
    outside (acquire_object x flat)
    acquireDown i

/-- `Parcel_acquireObjects` -/
def acquireObjects : Prog (Ctx W) Fault Unit := do
  let p ← thisParcel
  acquireDown x p.mObjectsSize

/-- The loop of `Parcel_closeFileDescriptors`. -/
def closeDown : Nat → Prog (Ctx W) Fault Unit
  | 0 => pure ()
  | i + 1 => do
    let flat ← loadFlat i
    if flat.type = BINDER_TYPE_FD then outside (x.close flat.handle) else pure ()
    closeDown i

/-- `Parcel_closeFileDescriptors` -/
def closeFileDescriptors : Prog (Ctx W) Fault Unit := do
  let p ← thisParcel
  closeDown x p.mObjectsSize

/-- `mOwner(this, mData, mDataSize, mObjects, mObjectsSize)`. `IPCThreadState_freeBuffer`
closes the files of the parcel and hands the buffer back to the driver. -/
def callOwner : ReleaseFunc → Prog (Ctx W) Fault Unit
  | .freeBuffer => do
    closeFileDescriptors x
    let p ← thisParcel
    outside (x.freeBuffer ((p.mData.map Block.address).getD 0))

end Objects

/-! ## Life and death -/

/-- The fields that `Parcel_initState` sets: all of them. -/
def empty : Parcel where
  mData := none
  mDataSize := 0
  mDataCapacity := 0
  mDataPos := 0
  mError := STATUS_OK
  mObjects := none
  mObjectsSize := 0
  mObjectsCapacity := 0
  mNextObjectHint := 0
  mObjectsSorted := false
  mRequestHeaderPresent := false
  mWorkSourceRequestHeaderPosition := 0
  mFdsKnown := true
  mHasFds := false
  mAllowFds := true
  mDeallocZero := false
  mOwner := none

/-- `Parcel_initState` -/
def initState : Prog (Ctx W) Fault Unit := update (fun _ => empty)

section Memory

variable (x : Outside W)

/-- `Parcel_freeDataNoInit` on own data: what it does with the buffer. -/
def freeOwnData : Prog (Ctx W) Fault Unit := do
  let p ← thisParcel
  match p.mData with
  | none => pure ()
  | some _ => do
    updateHeap (Heap.subSize p.mDataCapacity)
    updateHeap Heap.decCount
    if p.mDeallocZero = true then storeData 0 (List.replicate p.mDataSize 0) else pure ()
    let q ← thisParcel
    match q.mData with
    | none => pure ()
    | some b => updateHeap (Heap.giveBack b)

/-- `Parcel_freeDataNoInit` on own data: what it does with the object table. -/
def freeOwnObjects : Prog (Ctx W) Fault Unit := do
  let p ← thisParcel
  match p.mObjects with
  | none => pure ()
  | some table => updateHeap (Heap.giveBackTable table)

/-- `Parcel_freeDataNoInit` -/
def freeDataNoInit : Prog (Ctx W) Fault Unit := do
  let p ← thisParcel
  match p.mOwner with
  | some relFunc => callOwner x relFunc
  | none => do
    releaseObjects x
    freeOwnData
    freeOwnObjects

/-- `Parcel_freeData` -/
def freeData : Prog (Ctx W) Fault Unit := do
  freeDataNoInit x
  initState

/-- `this->mError = err; return err;` -/
def failWith (err : Int) : Prog (Ctx W) Fault Int := do
  update (fun p => { p with mError := err })
  pure err

/-- `reallocZeroFree`. Either way the old block goes back to the allocator: with zeros in
it, or as it is. -/
def reallocZeroFree (data : Block UInt8) (oldCapacity newCapacity : Nat) (zero : Bool) :
    Prog (Ctx W) Fault (Option (Block UInt8)) := do
  if zero = true then do
    match ← allocate fun g => resized (data.cells.take oldCapacity) newCapacity (freshByte g) with
    | none => pure none
    | some newData =>
      if data.cells.length < oldCapacity then fault .storeOutside
      else do
        updateHeap (Heap.giveBack
          { data with cells := overlay data.cells 0 (List.replicate oldCapacity 0) })
        pure (some newData)
  else do
    match ← allocate fun g => resized data.cells newCapacity (freshByte g) with
    | none => pure none
    | some newData => do
      updateHeap (Heap.giveBack data)
      pure (some newData)

/-- On a block of `oldCapacity` bytes. -/
theorem reallocZeroFree.spec {c : Ctx W} {E : Fault → Prop} {data : Block UInt8}
    {oldCapacity newCapacity : Nat} {zero : Bool} {Q : Option (Block UInt8) → Ctx W → Prop}
    (h : data.cells.length = oldCapacity) :
    wp (reallocZeroFree data oldCapacity newCapacity zero) Q E c ↔
      match c.heap.fresh c.heap.requests with
      | none => Q none (c.mapHeap Heap.next)
      | some g =>
        Q (some ⟨c.heap.requests, resized data.cells newCapacity (freshByte g)⟩)
          ((c.mapHeap Heap.next).mapHeap (Heap.giveBack (if zero = true
            then { data with cells := overlay data.cells 0 (List.replicate oldCapacity 0) }
            else data))) := by
  unfold reallocZeroFree
  rcases zero with _ | _
  · simp only [Bool.false_eq_true, if_false, wp_bind, wp_allocate]
    rcases c.heap.fresh c.heap.requests with _ | g <;> exact Iff.rfl
  · simp only [if_true, wp_bind, wp_allocate, h, Nat.lt_irrefl, if_false,
      List.take_of_length_le (Nat.le_of_eq h)]
    rcases c.heap.fresh c.heap.requests with _ | g <;> exact Iff.rfl

/-! ## Changing the size of the buffer -/

/-- The loop of `continueWrite` that finds how many objects start before `desired`. -/
def keptObjects (desired : Nat) : Nat → Prog (Ctx W) Fault Nat
  | 0 => pure 0
  | n + 1 => do
    let o ← loadObject n
    if o < desired then pure (n + 1) else keptObjects desired n

/-- How many objects `continueWrite` keeps. -/
def countKept (desired : Nat) : Prog (Ctx W) Fault Nat := do
  let p ← thisParcel
  if desired < p.mDataSize then
    if desired = 0 then pure 0 else keptObjects desired p.mObjectsSize
  else pure p.mObjectsSize

/-- How many of the first `n` objects of a table stay when all from `desired` on are dropped:
up to the last one that starts before it. -/
def keptBelow (table : List Nat) (desired : Nat) : Nat → Nat
  | 0 => 0
  | n + 1 => if table[n]?.getD 0 < desired then n + 1 else keptBelow table desired n

/-- What `countKept` counts. -/
def kept (p : Parcel) (desired : Nat) : Nat :=
  if desired < p.mDataSize then
    if desired = 0 then 0 else keptBelow p.table desired p.mObjectsSize
  else p.mObjectsSize

theorem keptBelow_le (table : List Nat) (desired n : Nat) : keptBelow table desired n ≤ n := by
  induction n with
  | zero => exact Nat.le_refl _
  | succ n ih =>
    unfold keptBelow
    split
    · exact Nat.le_refl _
    · exact Nat.le_succ_of_le ih

theorem kept_le (p : Parcel) (desired : Nat) : kept p desired ≤ p.mObjectsSize := by
  unfold kept
  split
  · split
    · exact Nat.zero_le _
    · exact keptBelow_le _ _ _
  · exact Nat.le_refl _

section

variable {c : Ctx W} {E : Fault → Prop} {Q : Nat → Ctx W → Prop} {desired : Nat}

theorem keptObjects.spec {n : Nat} (h : n ≤ c.parcel.table.length) :
    wp (keptObjects desired n) Q E c ↔ Q (keptBelow c.parcel.table desired n) c := by
  induction n with
  | zero => exact Iff.rfl
  | succ n ih =>
    have ho : c.parcel.table[n]? = some c.parcel.table[n] := List.getElem?_eq_getElem (by omega)
    unfold keptObjects keptBelow
    simp only [wp_bind, wp_loadObject ho, wp_ite, wp_pure, ho, Option.getD_some]
    split
    · rename_i hlt
      simp only [hlt, forall_const, not_true_eq_false, false_implies, and_true]
    · rename_i hge
      simp only [hge, false_implies, not_false_eq_true, forall_const, true_and]
      exact ih (by omega)

theorem countKept.spec (h : c.parcel.mObjectsSize ≤ c.parcel.table.length) :
    wp (countKept desired) Q E c ↔ Q (kept c.parcel desired) c := by
  unfold countKept kept
  simp only [wp_bind, wp_thisParcel]
  split
  · split
    · exact Iff.rfl
    · exact keptObjects.spec h
  · exact Iff.rfl

end

/-- The loop of `continueWrite` that releases `n` objects from the `i`-th on. -/
def releaseUp (i : Nat) : Nat → Prog (Ctx W) Fault Unit
  | 0 => pure ()
  | n + 1 => do
    let flat ← loadFlat i
    if flat.type = BINDER_TYPE_FD then update (fun p => { p with mFdsKnown := false }) else pure ()
    outside (release_object x flat)
    releaseUp (i + 1) n

/-- `continueWrite` where there is another owner: takes possession of a copy. -/
def takePossession (desired objectsSize : Nat) (data : Block UInt8) (objects : Option (Block Nat)) :
    Prog (Ctx W) Fault Int := do
  let p ← thisParcel
  let bytes ← if p.mData.isSome = true then loadData 0 (min p.mDataSize desired) else pure []
  let offsets := window ((p.mObjects.map Block.cells).getD []) 0 objectsSize
  match p.mOwner with
  | some relFunc => callOwner x relFunc
  | none => pure ()
  updateHeap (Heap.addSize desired)
  updateHeap Heap.incCount
  update (fun p => { p with
    mOwner := none
    mData := some { data with cells := overlay data.cells 0 bytes }
    mObjects := objects.map fun t => { t with cells := overlay t.cells 0 offsets }
    mDataSize := min p.mDataSize desired
    mDataCapacity := desired
    mObjectsSize := objectsSize
    mObjectsCapacity := objectsSize
    mNextObjectHint := 0
    mObjectsSorted := false })
  pure STATUS_OK

/-- `continueWrite` where there is another owner. -/
def continueOwned (desired objectsSize : Nat) : Prog (Ctx W) Fault Int := do
  if desired = 0 then do
    freeData x
    pure STATUS_OK
  else do
    match ← malloc desired with
    | none => failWith STATUS_NO_MEMORY
    | some data =>
      if objectsSize = 0 then takePossession x desired objectsSize data none
      else do
        match ← callocObjects objectsSize with
        | none => do
          updateHeap (Heap.giveBack data)
          failWith STATUS_NO_MEMORY
        | some objects => do
          -- only the objects that stay are acquired
          let oldObjectsSize := (← thisParcel).mObjectsSize
          update (fun p => { p with mObjectsSize := objectsSize })
          acquireObjects x
          update (fun p => { p with mObjectsSize := oldObjectsSize })
          takePossession x desired objectsSize data (some objects)

/-- `continueWrite` on own data, where objects are dropped from the `objectsSize`-th on. -/
def dropObjects (objectsSize : Nat) : Prog (Ctx W) Fault Unit := do
  let p ← thisParcel
  releaseUp x objectsSize (p.mObjectsSize - objectsSize)
  if objectsSize = 0 then
    update (fun p => { p with mObjects := none, mObjectsCapacity := 0 })
  else do
    match ← reallocObjects p.mObjects objectsSize with
    | some objects =>
      update (fun p => { p with mObjects := some objects, mObjectsCapacity := objectsSize })
    | none => pure ()
  update (fun p => { p with
    mObjectsSize := objectsSize, mNextObjectHint := 0, mObjectsSorted := false })

/-- `continueWrite` on own data, once the objects are settled. -/
def resizeOwn (desired : Nat) (data : Block UInt8) : Prog (Ctx W) Fault Int := do
  let p ← thisParcel
  if p.mDataCapacity < desired then do
    match ← reallocZeroFree data p.mDataCapacity desired p.mDeallocZero with
    | some data => do
      updateHeap (Heap.addSize desired)
      updateHeap (Heap.subSize p.mDataCapacity)
      update (fun p => { p with mData := some data, mDataCapacity := desired })
      pure STATUS_OK
    | none => failWith STATUS_NO_MEMORY
  else do
    update (fun p => { p with
      mDataSize := min p.mDataSize desired, mDataPos := min p.mDataPos desired })
    pure STATUS_OK

/-- `continueWrite` where there is no data yet. -/
def firstData (desired : Nat) : Prog (Ctx W) Fault Int := do
  match ← malloc desired with
  | none => failWith STATUS_NO_MEMORY
  | some data => do
    updateHeap (Heap.addSize desired)
    updateHeap Heap.incCount
    update (fun p => { p with
      mData := some data, mDataSize := 0, mDataPos := 0, mDataCapacity := desired })
    pure STATUS_OK

/-- `continueWrite` -/
def continueWrite (desired : Nat) : Prog (Ctx W) Fault Int := do
  if INT32_MAX < desired then pure STATUS_BAD_VALUE
  else do
    let p ← thisParcel
    let objectsSize ← countKept desired
    if p.mOwner.isSome = true then continueOwned x desired objectsSize
    else
      match p.mData with
      | some data => do
        if objectsSize < p.mObjectsSize then dropObjects x objectsSize else pure ()
        resizeOwn desired data
      | none => firstData desired

/-- `growData` -/
def growData (len : Nat) : Prog (Ctx W) Fault Int := do
  if INT32_MAX < len then pure STATUS_BAD_VALUE
  else do
    let p ← thisParcel
    if SIZE_MAX - p.mDataSize < len then pure STATUS_NO_MEMORY
    else if SIZE_MAX / 3 < p.mDataSize + len then pure STATUS_NO_MEMORY
    else
      let newSize := ((p.mDataSize + len) * 3) / 2
      if newSize ≤ p.mDataSize then pure STATUS_NO_MEMORY
      else continueWrite x (max newSize 128)

/-- The position moves on, and the end of the data with it. -/
def advance (len : Nat) (p : Parcel) : Parcel :=
  { p with
    mDataPos := sz (p.mDataPos + len)
    mDataSize := max p.mDataSize (sz (p.mDataPos + len)) }

@[simp] theorem place_advance (len : Nat) (p : Parcel) (pos : Nat) :
    (advance len p).place pos = p.place pos := rfl

/-- `finishWrite` -/
def finishWrite (len : Nat) : Prog (Ctx W) Fault Int := do
  if INT32_MAX < len then pure STATUS_BAD_VALUE
  else do
    update (advance len)
    pure STATUS_OK

end Memory

end Parcel

end system_binder
