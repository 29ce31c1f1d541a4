-- One thread of a binder process: for whom it works, the commands that it exchanges with the
-- driver, and the references that wait until the driver has them. What it calls outside is foreign
-- code, which may call it again.
import SystemBinder.BinderCommands
import SystemBinder.ForeignCode
import SystemBinder.ParcelBinders

open prog

namespace system_binder

def TF_ONE_WAY : BitVec 32 := 0x01#32
def TF_STATUS_CODE : BitVec 32 := 0x08#32
def TF_ACCEPT_FDS : BitVec 32 := 0x10#32
def TF_CLEAR_BUF : BitVec 32 := 0x20#32

/-- Nothing of `TF_ONE_WAY` is set. -/
def twoWay (flags : BitVec 32) : Bool := flags &&& TF_ONE_WAY == 0

inductive CallRestriction
  | NONE
  | ERROR_IF_NOT_ONEWAY
  | FATAL_IF_NOT_ONEWAY
deriving DecidableEq, Repr

namespace IPCThread

def kUnsetWorkSource : BitVec 32 := -1
def kWorkSourcePropagatedBitIndex : Nat := 32

/-! ## The data -/

/-- What sets a field of the thread state. -/
inductive Setting
  | setStrictModePolicy (policy : BitVec 32)
  | setCallingWorkSourceUid (uid : BitVec 32)
  | setCallingWorkSourceUidWithoutPropagation (uid : BitVec 32)
  | clearCallingWorkSource
  | clearPropagateWorkSource
  | setLastTransactionBinderFlags (flags : BitVec 32)
  | clearCaller
deriving DecidableEq, Repr

/-- The functions of the thread that code outside may call. A proxy is the address of its
`BpBinder`. `freeBuffer` is the release function of a parcel, after it has closed the files. -/
inductive Action
  | set (setting : Setting)
  | setCallRestriction (restriction : CallRestriction)
  | flushCommands
  | flushIfNeeded
  | incStrongHandle (handle : BitVec 32) (proxy : BitVec 64)
  | decStrongHandle (handle : BitVec 32)
  | incWeakHandle (handle : BitVec 32) (proxy : BitVec 64)
  | decWeakHandle (handle : BitVec 32)
  | requestDeathNotification (handle : BitVec 32) (proxy : BitVec 64)
  | clearDeathNotification (handle : BitVec 32) (proxy : BitVec 64)
  | transact (handle code : BitVec 32) (data : Parcel) (reply : Option Parcel) (flags : BitVec 32)
  | freeBuffer (data : Nat)
deriving DecidableEq, Repr

inductive Answer
  | nothing
  | token (token : BitVec 64)
  | flushed (flushed : Bool)
  | status (err : Int)
  | transacted (err : Int) (reply : Option Parcel)
deriving DecidableEq, Repr

/-- Code outside sees for whom the thread works, and the world. -/
abbrev Foreign (V α : Type) := Code (ThreadState × V) V Action Answer α

/-- How much the driver took of what it was given. -/
inductive WriteConsumed
  | none
  | part
  | all
deriving DecidableEq, Repr

/-- What `BINDER_WRITE_READ` answers in the end: an error number, and then it took nothing, or what
it took and what it sends. -/
inductive DriverAnswer
  | fails (errno : Nat)
  | done (written : WriteConsumed) (read : List ReturnCommand)
deriving DecidableEq, Repr

end IPCThread

/-- An IPCThreadState with what is around it. `asked` counts the answers of the driver, `queued`
keeps every command that was ever written and `sent` those that the driver took, `executed` the
commands of the driver that were executed, and `own` what the thread state was set to since the
transaction that it serves began, in the transactions nested in it apart. -/
structure IPCThread (V : Type) where
  thread : ThreadState
  mIsLooper : Bool
  mIsFlushing : Bool
  mLastError : Int
  mCallRestriction : CallRestriction
  mDriverFD : Int
  mIn : List ReturnCommand
  mOut : List OutCommand
  mPendingWeakDerefs : List (BitVec 64)
  mPendingStrongDerefs : List (BitVec 64)
  mPostWriteWeakDerefs : List (BitVec 64)
  mPostWriteStrongDerefs : List (BitVec 64)
  heap : Heap
  world : V
  asked : Nat
  queued : List OutCommand
  sent : List OutCommand
  executed : List ReturnCommand
  own : List IPCThread.Setting

namespace IPCThread

/-- What is not in this file. `torn` is what is left in `mIn` of commands that the driver sent where
a nested call read others over them. -/
structure Env (V : Type) where
  getpid : BitVec 32
  getuid : BitVec 32
  frameAddress : Nat
  statusBuffer : Nat
  driver : Nat → DriverAnswer
  torn : Nat → List ReturnCommand
  mContextObject : V → BitVec 64
  refBase : BitVec 64 → V → BitVec 64
  getWeakRefs : BitVec 64 → V → BitVec 64
  incStrong : BitVec 64 → Foreign V Unit
  decStrong : BitVec 64 → Foreign V Unit
  incWeak : BitVec 64 → Foreign V Unit
  decWeak : BitVec 64 → Foreign V Unit
  attemptIncStrong : BitVec 64 → Foreign V Bool
  sendObituary : BitVec 64 → Foreign V Unit
  spawnPooledThread : Foreign V Unit
  getStrongProxyForHandle : BitVec 32 → Foreign V (BitVec 64)
  close : BitVec 32 → Foreign V Unit
  transact : BitVec 64 → BitVec 32 → Parcel → Parcel → BitVec 32 → Foreign V (Int × Parcel)

variable {V α : Type}

def host : Host (IPCThread V) (ThreadState × V) V where
  see := fun s => (s.thread, s.world)
  put := fun w s => { s with world := w }

def update (f : IPCThread V → IPCThread V) : Prog (IPCThread V) Fault Unit := modify f

/-- Writes a command to `mOut`, which has memory for it: the source ignores the status of a write
that finds none. -/
def write (cmd : OutCommand) : Prog (IPCThread V) Fault Unit :=
  update fun s => { s with mOut := s.mOut ++ [cmd], queued := s.queued ++ [cmd] }

/-! ## The setters -/

/-- The token of a work source. -/
def workSourceToken (t : ThreadState) : BitVec 64 :=
  ((BitVec.ofBool t.mPropagateWorkSource).setWidth 64 <<< kWorkSourcePropagatedBitIndex) |||
    t.mWorkSource.signExtend 64

def setCallingWorkSourceUid (uid : BitVec 32) (t : ThreadState) : ThreadState :=
  { t with mWorkSource := uid, mPropagateWorkSource := true }

variable (x : Env V)

/-- What the thread state is set to. -/
def Setting.apply (t : ThreadState) : Setting → ThreadState
  | .setStrictModePolicy policy => { t with mStrictModePolicy := policy }
  | .setCallingWorkSourceUid uid => IPCThread.setCallingWorkSourceUid uid t
  | .setCallingWorkSourceUidWithoutPropagation uid => { t with mWorkSource := uid }
  | .clearCallingWorkSource => IPCThread.setCallingWorkSourceUid kUnsetWorkSource t
  | .clearPropagateWorkSource => { t with mPropagateWorkSource := false }
  | .setLastTransactionBinderFlags flags => { t with mLastTransactionBinderFlags := flags }
  | .clearCaller =>
    { t with mCallingPid := x.getpid, mCallingSid := none, mCallingUid := x.getuid }

/-- What a setter returns. -/
def Setting.answer (t : ThreadState) : Setting → Answer
  | .setCallingWorkSourceUid _ | .setCallingWorkSourceUidWithoutPropagation _
  | .clearCallingWorkSource => .token (workSourceToken t)
  | _ => .nothing

def set (setting : Setting) : Prog (IPCThread V) Fault Answer := do
  let s ← get
  update fun s => { s with thread := setting.apply x s.thread, own := s.own ++ [setting] }
  pure (setting.answer s.thread)

/-! ## Writing to the driver -/

variable (perform : Action → Prog (IPCThread V) Fault Answer)

/-- Runs code outside. -/
def foreign (code : Foreign V α) : Prog (IPCThread V) Fault α := code.exec host perform

/-- The first loop of `IPCThreadState_processPostWriteDerefs`, for at most `n` turns. -/
def releaseWeak : Nat → Nat → Prog (IPCThread V) Fault Unit
  | 0, _ => fault .tooDeep
  | n + 1, i => do
    let s ← get
    match s.mPostWriteWeakDerefs[i]? with
    | none => pure ()
    | some refs => do
      foreign perform (x.decWeak refs)
      releaseWeak n (i + 1)

/-- The second loop of `IPCThreadState_processPostWriteDerefs`, for at most `n` turns. -/
def releaseStrong : Nat → Nat → Prog (IPCThread V) Fault Unit
  | 0, _ => fault .tooDeep
  | n + 1, i => do
    let s ← get
    match s.mPostWriteStrongDerefs[i]? with
    | none => pure ()
    | some obj => do
      foreign perform (x.decStrong obj)
      releaseStrong n (i + 1)

variable (turns : Nat)

/-- `IPCThreadState_processPostWriteDerefs` -/
def processPostWriteDerefs : Prog (IPCThread V) Fault Unit := do
  releaseWeak x perform turns 0
  update fun s => { s with mPostWriteWeakDerefs := [] }
  releaseStrong x perform turns 0
  update fun s => { s with mPostWriteStrongDerefs := [] }

/-- What the driver did with the commands it was given. -/
def takeCommands (given : List OutCommand) (written : WriteConsumed) :
    Prog (IPCThread V) Fault Unit :=
  match given, written with
  | [], _ | _, .none => pure ()
  | _, .part => fault (.logFatal "Driver did not consume write buffer")
  | _, .all => do
    update fun s => { s with mOut := [], sent := s.sent ++ given }
    processPostWriteDerefs x perform turns

/-- What the driver sent stands in `mIn`, unless a nested call read over it. -/
def receive (asked : Nat) (cmds : List ReturnCommand) : Prog (IPCThread V) Fault Unit :=
  if cmds = [] then pure ()
  else update fun s => { s with mIn := if s.asked = asked + 1 then cmds else x.torn s.asked }

/-- What the driver is given: nothing where the thread is to read and `mIn` is not consumed. -/
def outAvail (doReceive : Bool) (s : IPCThread V) : List OutCommand :=
  if doReceive = false ∨ s.mIn = [] then s.mOut else []

/-- The driver is to send commands. -/
def needsRead (doReceive : Bool) (s : IPCThread V) : Bool := doReceive && decide (s.mIn = [])

/-- `IPCThreadState_talkWithDriver` -/
def talkWithDriver (doReceive : Bool) : Prog (IPCThread V) Fault Int := do
  let s ← get
  if s.mDriverFD < 0 then pure (-EBADF)
  else if outAvail doReceive s = [] ∧ needsRead doReceive s = false then pure STATUS_OK
  else do
    update fun s => { s with asked := s.asked + 1 }
    match x.driver s.asked with
    | .fails errno => pure (-errno)
    | .done written read => do
      takeCommands x perform turns (outAvail doReceive s) written
      if needsRead doReceive s = true then receive x s.asked read else pure ()
      pure STATUS_OK

/-- `IPCThreadState_flushCommands` -/
def flushCommands : Prog (IPCThread V) Fault Unit := do
  let s ← get
  if s.mDriverFD < 0 then pure ()
  else do
    let _ ← talkWithDriver x perform turns false
    let s ← get
    if s.mOut = [] then pure ()
    else do
      let _ ← talkWithDriver x perform turns false
      pure ()

/-- `this->mIsLooper || this->mServingStackPointer != NULL || this->mIsFlushing` -/
def busy (s : IPCThread V) : Bool :=
  s.mIsLooper || s.thread.mServingStackPointer.isSome || s.mIsFlushing

/-- `IPCThreadState_flushIfNeeded` -/
def flushIfNeeded : Prog (IPCThread V) Fault Bool := do
  let s ← get
  if s.busy = true then pure false
  else do
    update fun s => { s with mIsFlushing := true }
    flushCommands x perform turns
    update fun s => { s with mIsFlushing := false }
    pure true

/-- `IPCThreadState_incStrongHandle` -/
def incStrongHandle (handle : BitVec 32) (proxy : BitVec 64) : Prog (IPCThread V) Fault Unit := do
  write (.BC_ACQUIRE handle)
  let flushed ← flushIfNeeded x perform turns
  if flushed = true then pure ()
  else do
    foreign perform (x.incStrong proxy)
    update fun s => { s with mPostWriteStrongDerefs := s.mPostWriteStrongDerefs ++ [proxy] }

/-- `IPCThreadState_incWeakHandle` -/
def incWeakHandle (handle : BitVec 32) (proxy : BitVec 64) : Prog (IPCThread V) Fault Unit := do
  write (.BC_INCREFS handle)
  let flushed ← flushIfNeeded x perform turns
  if flushed = true then pure ()
  else do
    let s ← get
    let weakref := x.getWeakRefs proxy s.world
    foreign perform (x.incWeak weakref)
    update fun s => { s with mPostWriteWeakDerefs := s.mPostWriteWeakDerefs ++ [weakref] }

/-- Writes a command that a flush follows: `IPCThreadState_decStrongHandle` and
`IPCThreadState_decWeakHandle`. -/
def writeAndFlush (cmd : OutCommand) : Prog (IPCThread V) Fault Unit := do
  write cmd
  let _ ← flushIfNeeded x perform turns
  pure ()

/-- `IPCThreadState_freeBuffer` of a parcel whose files are closed, or of none. -/
def freeBuffer (data : Nat) : Prog (IPCThread V) Fault Unit :=
  if data = 0 then fault (.logFatal "Called with NULL data")
  else writeAndFlush x perform turns (.BC_FREE_BUFFER data)

end IPCThread

end system_binder
