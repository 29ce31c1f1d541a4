-- The Status of a call: an exception code with its message, as a request
-- returns it and as it travels in a reply.
import SystemBinder.ParcelBinders

open prog memory

namespace system_binder

/-- `Status` -/
structure Status where
  mException : BitVec 32
  mErrorCode : BitVec 32
  mMessage : BinderString
deriving DecidableEq

def EX_NONE : BitVec 32 := 0
def EX_ILLEGAL_ARGUMENT : BitVec 32 := -3
def EX_SERVICE_SPECIFIC : BitVec 32 := -8
def EX_PARCELABLE : BitVec 32 := -9
def EX_HAS_REPLY_HEADER : BitVec 32 := -128
def EX_TRANSACTION_FAILED : BitVec 32 := -129

def STATUS_FAILED_TRANSACTION : Int := INT32_MIN + 2

namespace Status

variable {W : Type}

/-- `Status_init` -/
def init (st : Status) : Status :=
  { mException := EX_NONE, mErrorCode := 0, mMessage := st.mMessage.init none }

/-- `Status_fromExceptionCode` -/
def fromExceptionCode (st : Status) (exceptionCode : BitVec 32) (string : Option (List UInt8)) :
    Status where
  mException := exceptionCode
  mErrorCode := BitVec.ofInt 32
    (if exceptionCode = EX_TRANSACTION_FAILED then STATUS_FAILED_TRANSACTION else STATUS_OK)
  mMessage := st.mMessage.init string

/-- `Status_setFromStatusT` -/
def setFromStatusT (st : Status) (status : Int) : Status where
  mException := if status = STATUS_OK then EX_NONE else EX_TRANSACTION_FAILED
  mErrorCode := BitVec.ofInt 32 status
  mMessage := st.mMessage.clear

/-- `Status_writeToParcel` -/
def writeToParcel (x : Outside W) (st : Status) : Prog (Ctx W) Fault Int := do
  if st.mException = EX_TRANSACTION_FAILED then pure st.mErrorCode.toInt
  else do
    let status ← Parcel.writeInt32 x st.mException
    if status ≠ STATUS_OK then pure status
    else if st.mException = EX_NONE then pure status
    else do
      let status ← Parcel.writeString16 x (some st.mMessage)
      if status ≠ STATUS_OK then pure status
      else do
        let status ← Parcel.writeInt32 x 0
        if status ≠ STATUS_OK then pure status
        else if st.mException = EX_SERVICE_SPECIFIC then Parcel.writeInt32 x st.mErrorCode
        else if st.mException = EX_PARCELABLE then Parcel.writeInt32 x 0
        else pure status

/-- What an uninitialised `String` holds. -/
def indeterminateString : Prog (Ctx W) Fault BinderString := fun c =>
  .ok ({ mData := (List.range STRING_INIT_CAPACITY).map fun i =>
            UInt8.ofNat (c.heap.leftover (c.heap.locals + i)).toNat
         room := by rw [List.length_map, List.length_range]
         mSize := (c.heap.leftover c.heap.locals).toNat
         mCapacity := (c.heap.leftover c.heap.locals).toNat },
    c.mapHeap (Heap.nextLocals STRING_INIT_CAPACITY))

/-- `Status_setFromStatusT(this, status); return status;` -/
def failWith (st : Status) (status : Int) : Prog (Ctx W) Fault (Int × Status) :=
  pure (status, st.setFromStatusT status)

/-- A block that starts with its own size is skipped: the size it has, or the error. -/
def blockSize : Prog (Ctx W) Fault (Int × Nat) := do
  let avail ← Parcel.dataAvail
  let old ← indeterminate
  let (status, size) ← Parcel.readInt32 old
  if status ≠ STATUS_OK then pure (status, 0)
  else if size.toInt < 0 ∨ avail < size.toNat then pure (STATUS_UNKNOWN_ERROR, 0)
  else pure (STATUS_OK, size.toNat)

/-- Past a block of `size` bytes that starts at `start`. The stack trace is only skipped
where it has bytes. -/
def moveOver (always : Bool) (start size : Nat) : Prog (Ctx W) Fault Unit :=
  if size ≠ 0 ∨ always = true then Parcel.setDataPosition (start + size) else pure ()

/-- Skips a block and goes on with `next`, or fails. -/
def skipBlock (always : Bool) (st : Status) (next : Prog (Ctx W) Fault (Int × Status)) :
    Prog (Ctx W) Fault (Int × Status) := do
  let start ← Parcel.dataPosition
  let (status, size) ← blockSize
  if status ≠ STATUS_OK then failWith st status
  else do
    moveOver always start size
    next

/-- `Status_readFromParcel` after the stack trace. -/
def readDetails (st : Status) : Prog (Ctx W) Fault (Int × Status) := do
  if st.mException = EX_SERVICE_SPECIFIC then do
    let (status, code) ← Parcel.readInt32 st.mErrorCode
    if status ≠ STATUS_OK then failWith { st with mErrorCode := code } status
    else pure (STATUS_OK, { st with mErrorCode := code })
  else if st.mException = EX_PARCELABLE then skipBlock true st (pure (STATUS_OK, st))
  else pure (STATUS_OK, st)

/-- `Status_readFromParcel` where the remote threw an exception: the message, the stack
trace, and what else there is. -/
def readException (st : Status) : Prog (Ctx W) Fault (Int × Status) := do
  let message ← indeterminateString
  let (status, message) ← Parcel.readString16_to message
  if status ≠ STATUS_OK then failWith st status
  else do
    let text ← st.mMessage.dup message
    let st := { st with mMessage := text }
    skipBlock false st (readDetails st)

/-- `Status_readFromParcel` -/
def readFromParcel (st : Status) : Prog (Ctx W) Fault (Int × Status) := do
  let (status, exception) ← Parcel.readInt32 st.mException
  let st := { st with mException := exception }
  if status ≠ STATUS_OK then failWith st status
  else if exception = EX_HAS_REPLY_HEADER then
    -- a fat response header comes where there is no exception
    skipBlock true st (pure (STATUS_OK, { st with mException := EX_NONE }))
  else if exception = EX_NONE then pure (STATUS_OK, st)
  else readException st

end Status

end system_binder
