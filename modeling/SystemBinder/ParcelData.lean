-- Reading and writing a Parcel: words, blobs, strings and binder objects, and
-- the functions that move its position and its size.
import SystemBinder.Parcel

open prog memory

namespace system_binder.Parcel

variable {W : Type}

/-! ## Words and blobs -/

/-- `pad_size` -/
def padSize (s : Nat) : Nat := sz (s + 3) / 4 * 4

/-- The position moves on. -/
def skip (n : Nat) (p : Parcel) : Parcel := { p with mDataPos := sz (p.mDataPos + n) }

@[simp] theorem mDataSize_skip (n : Nat) (p : Parcel) : (skip n p).mDataSize = p.mDataSize := rfl

@[simp] theorem cells_skip (n : Nat) (p : Parcel) : (skip n p).cells = p.cells := rfl

@[simp] theorem place_skip (n : Nat) (p : Parcel) (pos : Nat) :
    (skip n p).place pos = p.place pos := rfl

/-- `readAligned`. `pArg` is what the caller's variable holds before. -/
def readAligned (pArg : List UInt8) (size : Nat) : Prog (Ctx W) Fault (Int × List UInt8) := do
  let p ← thisParcel
  if sz (p.mDataPos + size) ≤ p.mDataSize then do
    let bs ← loadData p.mDataPos size
    update (skip size)
    pure (STATUS_OK, bs)
  else pure (STATUS_NOT_ENOUGH_DATA, pArg)

/-- `readInplace` -/
def readInplace (len : Nat) : Prog (Ctx W) Fault (Option Nat) := do
  if INT32_MAX < len then pure none
  else do
    let p ← thisParcel
    if p.mDataPos ≤ sz (p.mDataPos + padSize len) ∧ sz (p.mDataPos + padSize len) ≤ p.mDataSize ∧
        len ≤ padSize len then do
      update (skip (padSize len))
      pure (p.place p.mDataPos)
    else pure none

/-- `Parcel_readInt32` -/
def readInt32 (pArg : BitVec 32) : Prog (Ctx W) Fault (Int × BitVec 32) := do
  let (status, bs) ← readAligned (wordBytes 4 pArg) 4
  pure (status, bytesWord 32 bs)

/-- `Parcel_readPointer` -/
def readPointer : Prog (Ctx W) Fault (BitVec 64) := do
  let (status, bs) ← readAligned [] 8
  if status ≠ STATUS_OK then pure 0 else pure (bytesWord 64 bs)

/-- `Parcel_readBool` -/
def readBool : Prog (Ctx W) Fault (Int × Bool) := do
  let (ret, tmp) ← readInt32 0
  pure (ret, tmp != 0)

/-- `Parcel_read`. `outData` is what the caller's buffer holds before. -/
def read (outData : List UInt8) (len : Nat) : Prog (Ctx W) Fault (Int × List UInt8) := do
  if INT32_MAX < len then pure (STATUS_BAD_VALUE, outData)
  else do
    let p ← thisParcel
    if p.mDataPos ≤ sz (p.mDataPos + padSize len) ∧ sz (p.mDataPos + padSize len) ≤ p.mDataSize ∧
        len ≤ padSize len then do
      let bs ← loadData p.mDataPos len
      update (skip (padSize len))
      pure (STATUS_OK, bs)
    else pure (STATUS_NOT_ENOUGH_DATA, outData)

section Writes

variable (x : Outside W)

/-- `writeAligned` from `restart_write` on. -/
def storeAligned (bs : List UInt8) : Prog (Ctx W) Fault Int := do
  let p ← thisParcel
  storeData p.mDataPos bs
  finishWrite bs.length

/-- `writeAligned` -/
def writeAligned (bs : List UInt8) : Prog (Ctx W) Fault Int := do
  let p ← thisParcel
  if sz (p.mDataPos + bs.length) ≤ p.mDataCapacity then storeAligned bs
  else do
    let err ← growData x bs.length
    if err = STATUS_OK then storeAligned bs else pure err

/-- `mask[n]` of a little-endian machine: keeps all but the last `n` bytes. -/
def padMask : Nat → BitVec 32
  | 1 => 0x00ffffff
  | 2 => 0x0000ffff
  | 3 => 0x000000ff
  | _ => 0x00000000

/-- `writeInplace` from `restart_write` on: zeroes the padding and moves on. -/
def claimInplace (len : Nat) : Prog (Ctx W) Fault (Option Nat) := do
  let p ← thisParcel
  let padded := padSize len
  if padded ≠ len then do
    let word ← loadData (p.mDataPos + padded - 4) 4
    storeData (p.mDataPos + padded - 4)
      (wordBytes 4 (bytesWord 32 word &&& padMask (padded - len)))
  else pure ()
  let _ ← finishWrite padded
  pure (p.place p.mDataPos)

/-- `writeInplace` -/
def writeInplace (len : Nat) : Prog (Ctx W) Fault (Option Nat) := do
  if INT32_MAX < len then pure none
  else do
    let p ← thisParcel
    let padded := padSize len
    if sz (p.mDataPos + padded) < p.mDataPos then pure none
    else if sz (p.mDataPos + padded) ≤ p.mDataCapacity then claimInplace len
    else do
      let err ← growData x padded
      if err = STATUS_OK then claimInplace len else pure none

/-- `Parcel_writeInt32` -/
def writeInt32 (val : BitVec 32) : Prog (Ctx W) Fault Int := writeAligned x (wordBytes 4 val)

/-- `Parcel_writePointer` -/
def writePointer (val : BitVec 64) : Prog (Ctx W) Fault Int := writeAligned x (wordBytes 8 val)

/-- `Parcel_writeBool` -/
def writeBool (val : Bool) : Prog (Ctx W) Fault Int := writeInt32 x (if val then 1 else 0)

/-- `Parcel_write` -/
def write (data : List UInt8) : Prog (Ctx W) Fault Int := do
  if INT32_MAX < data.length then pure STATUS_BAD_VALUE
  else do
    match ← writeInplace x data.length with
    | some d => do
      storeData d data
      pure STATUS_OK
    | none => do
      let p ← thisParcel
      pure p.mError

/-! ## Strings -/

/-- `Parcel_writeString16` -/
def writeString16 (str : Option BinderString) : Prog (Ctx W) Fault Int := do
  match str with
  | none => writeInt32 x (-1)
  | some str => do
    let len := str.mSize
    let err ← writeInt32 x (BitVec.ofNat 32 len)
    if err = STATUS_OK then do
      match ← writeInplace x (sz (len + 1)) with
      | some data => do
        let text ← str.copyTo len
        storeData data text
        storeData (data + len) [0]
        pure STATUS_OK
      | none => do
        let p ← thisParcel
        pure p.mError
    else pure err

end Writes

/-- `readString8Inplace`: the pointer and `*outLen`. The status of the length read is
ignored, so a failed one leaves whatever `size` held. -/
def readString8Inplace : Prog (Ctx W) Fault (Option Nat × Nat) := do
  let size ← indeterminate
  let (_, size) ← readInt32 size
  if 0 ≤ size.toInt ∧ size.toInt < INT32_MAX then do
    match ← readInplace (size.toNat + 1) with
    | some str => do
      let last ← loadData (str + size.toNat) 1
      if last = [0] then pure (some str, size.toNat) else fault (.logFatal "172655291")
    | none => pure (none, 0)
  else pure (none, 0)

/-- `Parcel_readString16` -/
def readString16 : Prog (Ctx W) Fault (Option Nat) := do
  let (str, _) ← readString8Inplace
  pure str

/-- The text at a pointer into the data, up to its NUL. -/
def loadText (str : Nat) : Prog (Ctx W) Fault (List UInt8) := fun c =>
  match c.parcel.mData with
  | none => .error .nullPointer
  | some b =>
    let text := (b.cells.drop str).takeWhile (· ≠ 0)
    if str + text.length < b.cells.length then .ok (text, c) else .error .loadOutside

/-- `Parcel_readString16_to` -/
def readString16_to (pArg : BinderString) : Prog (Ctx W) Fault (Int × BinderString) := do
  match ← readString16 with
  | some str => do
    let text ← loadText str
    pure (STATUS_OK, pArg.init (some text))
  | none => pure (STATUS_BAD_VALUE, pArg)

/-! ## Objects -/

section WriteObject

variable (x : Outside W)

/-- `Parcel_writeObject` once the object is stored: lists it and moves on. -/
def listFlat (val : FlatBinderObject) (nullMetaData : Bool) : Prog (Ctx W) Fault Int := do
  if nullMetaData = true ∨ val.binder ≠ 0 then do
    let p ← thisParcel
    storeObject p.mObjectsSize p.mDataPos
    outside (acquire_object x val)
    update (fun p => { p with mObjectsSize := p.mObjectsSize + 1 })
    finishWrite FLAT_SIZE
  else finishWrite FLAT_SIZE

/-- `Parcel_writeObject` from `restart_write` on. -/
def storeFlat (val : FlatBinderObject) (nullMetaData : Bool) : Prog (Ctx W) Fault Int := do
  let p ← thisParcel
  storeData p.mDataPos val.toBytes
  if val.type = BINDER_TYPE_FD then
    -- fail before modifying the object index
    if p.mAllowFds = false then pure STATUS_FDS_NOT_ALLOWED
    else do
      update (fun p => { p with mHasFds := true, mFdsKnown := true })
      listFlat x val nullMetaData
  else listFlat x val nullMetaData

/-- `Parcel_writeObject` where the table of objects is full. -/
def growObjects : Prog (Ctx W) Fault Int := do
  let p ← thisParcel
  if SIZE_MAX - 2 < p.mObjectsSize then pure STATUS_NO_MEMORY
  else if SIZE_MAX / 3 < p.mObjectsSize + 2 then pure STATUS_NO_MEMORY
  else
    let newSize := ((p.mObjectsSize + 2) * 3) / 2
    if SIZE_MAX / 8 < newSize then pure STATUS_NO_MEMORY
    else do
      match ← reallocObjects p.mObjects newSize with
      | none => pure STATUS_NO_MEMORY
      | some objects => do
        update (fun p => { p with mObjects := some objects, mObjectsCapacity := newSize })
        pure STATUS_OK

/-- `Parcel_writeObject` where there is room for the data. -/
def listWithRoom (enoughObjects : Bool) (val : FlatBinderObject) (nullMetaData : Bool) :
    Prog (Ctx W) Fault Int := do
  if enoughObjects = true then storeFlat x val nullMetaData
  else do
    let err ← growObjects
    if err = STATUS_OK then storeFlat x val nullMetaData else pure err

/-- `Parcel_writeObject`. It asks `growData` for `sizeof(val)`, the size of a pointer. -/
def writeObject (val : FlatBinderObject) (nullMetaData : Bool) : Prog (Ctx W) Fault Int := do
  let p ← thisParcel
  let enoughObjects := decide (p.mObjectsSize < p.mObjectsCapacity)
  if sz (p.mDataPos + FLAT_SIZE) ≤ p.mDataCapacity then
    listWithRoom x enoughObjects val nullMetaData
  else do
    let err ← growData x 8
    if err = STATUS_OK then listWithRoom x enoughObjects val nullMetaData else pure err

/-- `Parcel_writeFileDescriptor` -/
def writeFileDescriptor (fd : BitVec 32) (takeOwnership : Bool) : Prog (Ctx W) Fault Int := do
  let obj ← indeterminateObject
  let obj := { obj with type := BINDER_TYPE_FD }
  let obj := { obj with flags := 0x7f ||| FLAT_BINDER_FLAG_ACCEPTS_FDS }
  -- the handle is half of it, and the other half goes to the peer
  let obj := { obj with binder := 0 }
  let obj := obj.setHandle fd
  let obj := { obj with cookie := if takeOwnership then 1 else 0 }
  writeObject x obj true

/-- Every field of the object is set. -/
theorem writeFileDescriptor_eq (fd : BitVec 32) (takeOwnership : Bool) :
    writeFileDescriptor x fd takeOwnership = (do
      let _ ← indeterminateObject
      writeObject x
        { type := BINDER_TYPE_FD
          flags := 0x7f ||| FLAT_BINDER_FLAG_ACCEPTS_FDS
          binder := fd.setWidth 64
          cookie := if takeOwnership then 1 else 0 } true) := by
  simp only [writeFileDescriptor, FlatBinderObject.setHandle_zero]

end WriteObject

/-- The loop of `Parcel_readObject` that looks ahead, at most `n` steps. -/
def searchForward (dpos : Nat) : Nat → Nat → Prog (Ctx W) Fault Nat
  | 0, opos => pure opos
  | n + 1, opos => do
    let o ← loadObject opos
    if o < dpos then searchForward dpos n (opos + 1) else pure opos

/-- The loop of `Parcel_readObject` that looks back. -/
def searchBackward (dpos : Nat) : Nat → Prog (Ctx W) Fault Nat
  | 0 => pure 0
  | opos + 1 => do
    let o ← loadObject (opos + 1)
    if dpos < o then searchBackward dpos opos else pure (opos + 1)

/-- An entry says `dpos`, and the next search starts after it. Or `orElse` goes on. -/
def foundAt (dpos opos : Nat) (orElse : Prog (Ctx W) Fault Bool) : Prog (Ctx W) Fault Bool := do
  let o ← loadObject opos
  if o = dpos then do
    update (fun p => { p with mNextObjectHint := opos + 1 })
    pure true
  else orElse

/-- The entry where the search ahead stopped, or one before it, says `dpos`. -/
def findFrom (dpos opos : Nat) : Prog (Ctx W) Fault Bool :=
  foundAt dpos opos do
    let opos ← searchBackward dpos opos
    foundAt dpos opos (pure false)

/-- The object table says that an object stands at `dpos`. -/
def findObject (dpos : Nat) : Prog (Ctx W) Fault Bool := do
  let p ← thisParcel
  let N := p.mObjectsSize
  if N = 0 then pure false
  else if p.mNextObjectHint < N then do
    let opos ← searchForward dpos (N - 1 - p.mNextObjectHint) p.mNextObjectHint
    findFrom dpos opos
  else findFrom dpos (N - 1)

/-- `Parcel_readObject`: the object itself where the source returns its address. -/
def readObject (nullMetaData : Bool) : Prog (Ctx W) Fault (Option FlatBinderObject) := do
  let p ← thisParcel
  let dpos := p.mDataPos
  if sz (dpos + FLAT_SIZE) ≤ p.mDataSize then do
    let bs ← loadData dpos FLAT_SIZE
    let obj := FlatBinderObject.ofBytes bs
    update (skip FLAT_SIZE)
    if nullMetaData = false ∧ obj.cookie = 0 ∧ obj.binder = 0 then pure (some obj)
    else do
      let found ← findObject dpos
      if found = true then pure (some obj) else pure none
  else pure none

/-- `Parcel_readFileDescriptor` -/
def readFileDescriptor : Prog (Ctx W) Fault Int := do
  match ← readObject true with
  | some flat => if flat.type = BINDER_TYPE_FD then pure flat.handle.toInt else pure STATUS_BAD_TYPE
  | none => pure STATUS_BAD_TYPE

/-! ## Position and size -/

/-- `Parcel_dataPosition` -/
def dataPosition : Prog (Ctx W) Fault Nat := do
  let p ← thisParcel
  pure p.mDataPos

/-- `Parcel_dataSize` -/
def dataSize : Prog (Ctx W) Fault Nat := do
  let p ← thisParcel
  pure (max p.mDataSize p.mDataPos)

/-- `Parcel_dataAvail` -/
def dataAvail : Prog (Ctx W) Fault Nat := do
  let size ← dataSize
  let pos ← dataPosition
  let result := size - pos
  if INT32_MAX < result then fault (.logFatal "result too big") else pure result

/-- `Parcel_setDataPosition` -/
def setDataPosition (pos : Nat) : Prog (Ctx W) Fault Unit := do
  if INT32_MAX < pos then fault (.logFatal "pos too big")
  else update (fun p => { p with mDataPos := pos, mNextObjectHint := 0, mObjectsSorted := false })

/-- `Parcel_setDataSize` -/
def setDataSize (x : Outside W) (size : Nat) : Prog (Ctx W) Fault Int := do
  if INT32_MAX < size then pure STATUS_BAD_VALUE
  else do
    let err ← continueWrite x size
    if err = STATUS_OK then do
      update (fun p => { p with mDataSize := size })
      pure err
    else pure err

/-- `Parcel_setDataCapacity` -/
def setDataCapacity (x : Outside W) (size : Nat) : Prog (Ctx W) Fault Int := do
  if INT32_MAX < size then pure STATUS_BAD_VALUE
  else do
    let p ← thisParcel
    if p.mDataCapacity < size then continueWrite x size else pure STATUS_OK

/-- `Parcel_setError` -/
def setError (err : Int) : Prog (Ctx W) Fault Unit := update (fun p => { p with mError := err })

/-- `Parcel_markSensitive` -/
def markSensitive : Prog (Ctx W) Fault Unit := update (fun p => { p with mDeallocZero := true })

end system_binder.Parcel
