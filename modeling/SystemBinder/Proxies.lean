-- The proxies of a process, their handle table, and what its thread writes for the
-- driver on their behalf. The callbacks of a reference count write commands, a flush of
-- the commands releases references, and their callbacks may flush again: a `Knot` ties
-- these functions together to a depth.
import SystemBinder.BinderCommands
import SystemBinder.ParcelBinders
import SystemBinder.RefBase
import SystemBinder.Vector

open prog

namespace system_binder

/-- An object with an `IBinder`: a proxy has a handle, a binder of this process none. -/
structure BinderObject where
  binder_handle : Option (BitVec 32)
  refs : WeakrefImpl
deriving DecidableEq, Repr

/-- `handle_entry`. The binder and its counts stand at one address, 0 for NULL. -/
structure HandleEntry where
  binder : Nat
deriving DecidableEq, Repr

/-- A temporary reference that waits for the driver. -/
inductive TempRef
  | strong (object : Nat)
  | weak (object : Nat)
deriving DecidableEq, Repr

/-- A process and one thread of it. The driver takes all commands it is given: `sent` keeps
them call by call, `queued` all that were ever written, and `pushed` and `released` the
temporary references as they come and go. `pingStatus` is what the context manager answers. -/
structure Process where
  thread : ThreadState
  mIsLooper : Bool
  mIsFlushing : Bool
  mDriverFD : Int
  mOut : List OutCommand
  mPostWriteWeakDerefs : List Nat
  mPostWriteStrongDerefs : List Nat
  objects : Nat → BinderObject
  next : Nat
  mContextObject : Nat
  mHandleToObject : VectorBase Nat
  entries : List HandleEntry
  throttled : Bool
  pingStatus : Int
  granted : Bool
  sent : List (List OutCommand)
  queued : List OutCommand
  pushed : List TempRef
  released : List TempRef

namespace Process

/-! ## Reaching the state -/

def thisProcess : Prog Process Fault Process := fun s => .ok (s, s)

def update (f : Process → Process) : Prog Process Fault Unit := fun s => .ok ((), f s)

/-- The process with other counts for the object at `a`. -/
def putRefs (a : Nat) (r : WeakrefImpl) (s : Process) : Process :=
  { s with objects := Function.update s.objects a { s.objects a with refs := r } }

/-- Writes a command to `mOut`, which has memory for it. -/
def write (cmd : OutCommand) : Prog Process Fault Unit :=
  update fun s => { s with mOut := s.mOut ++ [cmd], queued := s.queued ++ [cmd] }

/-- What a class of objects and the thread do for each other. -/
structure Knot where
  talkWithDriver : Prog Process Fault Unit
  onFirstRef : Nat → Prog Process Fault Unit
  onLastStrongRef : Nat → Prog Process Fault Unit

/-- The `RefBase` of the object at `a`. -/
def refBase (k : Knot) (a : Nat) : RefBase Process where
  refs := fun s => (s.objects a).refs
  putRefs := putRefs a
  refs_put := fun r s => by simp [putRefs]
  put_put := fun r r' s => by simp [putRefs]
  put_refs := fun s => by simp [putRefs]
  onFirstRef := k.onFirstRef a
  onLastStrongRef := k.onLastStrongRef a
  onIncStrongAttempted := pure false
  onLastWeakRef := pure ()

/-! ## The thread -/

variable (k : Knot)

/-- The first loop of `IPCThreadState_processPostWriteDerefs`, for at most `n` more turns. -/
def releaseWeak : Nat → Nat → Prog Process Fault Unit
  | 0, i => do
    let s ← thisProcess
    if i < s.mPostWriteWeakDerefs.length then fault .tooDeep else pure ()
  | n + 1, i => do
    let s ← thisProcess
    match s.mPostWriteWeakDerefs[i]? with
    | none => pure ()
    | some a => do
      update fun s => { s with released := s.released ++ [.weak a] }
      (refBase k a).decWeak
      releaseWeak n (i + 1)

/-- The second loop of `IPCThreadState_processPostWriteDerefs`, for at most `n` more turns. -/
def releaseStrong : Nat → Nat → Prog Process Fault Unit
  | 0, i => do
    let s ← thisProcess
    if i < s.mPostWriteStrongDerefs.length then fault .tooDeep else pure ()
  | n + 1, i => do
    let s ← thisProcess
    match s.mPostWriteStrongDerefs[i]? with
    | none => pure ()
    | some a => do
      update fun s => { s with released := s.released ++ [.strong a] }
      (refBase k a).decStrong
      releaseStrong n (i + 1)

/-- `IPCThreadState_processPostWriteDerefs` -/
def processPostWriteDerefs : Prog Process Fault Unit := do
  let s ← thisProcess
  releaseWeak k s.mPostWriteWeakDerefs.length 0
  update fun s => { s with mPostWriteWeakDerefs := [] }
  let s ← thisProcess
  releaseStrong k s.mPostWriteStrongDerefs.length 0
  update fun s => { s with mPostWriteStrongDerefs := [] }

/-- `IPCThreadState_talkWithDriver` of a thread that has nothing to read: the driver takes the
commands. -/
def talkWithDriver : Prog Process Fault Unit := do
  let s ← thisProcess
  if s.mDriverFD < 0 ∨ s.mOut = [] then pure ()
  else do
    update fun s => { s with mOut := [], sent := s.sent ++ [s.mOut] }
    processPostWriteDerefs k

/-- `IPCThreadState_flushCommands` -/
def flushCommands : Prog Process Fault Unit := do
  let s ← thisProcess
  if s.mDriverFD < 0 then pure ()
  else do
    k.talkWithDriver
    let s ← thisProcess
    if s.mOut = [] then pure () else k.talkWithDriver

/-- `this->mIsLooper || this->mServingStackPointer != NULL || this->mIsFlushing` -/
def busy (s : Process) : Bool :=
  s.mIsLooper || s.thread.mServingStackPointer.isSome || s.mIsFlushing

/-- `IPCThreadState_flushIfNeeded` -/
def flushIfNeeded : Prog Process Fault Bool := do
  let s ← thisProcess
  if s.busy = true then pure false
  else do
    update fun s => { s with mIsFlushing := true }
    flushCommands k
    update fun s => { s with mIsFlushing := false }
    pure true

/-- The temporary reference of `IPCThreadState_incStrongHandle`. -/
def keepStrong (a : Nat) : Prog Process Fault Unit := do
  (refBase k a).incStrong
  update fun s => { s with
    mPostWriteStrongDerefs := s.mPostWriteStrongDerefs ++ [a], pushed := s.pushed ++ [.strong a] }

/-- `IPCThreadState_incStrongHandle` -/
def incStrongHandle (handle : BitVec 32) (a : Nat) : Prog Process Fault Unit := do
  write (.BC_ACQUIRE handle)
  let flushed ← flushIfNeeded k
  if flushed = true then pure () else keepStrong k a

/-- `IPCThreadState_decStrongHandle` -/
def decStrongHandle (handle : BitVec 32) : Prog Process Fault Unit := do
  write (.BC_RELEASE handle)
  let _ ← flushIfNeeded k
  pure ()

/-- The temporary reference of `IPCThreadState_incWeakHandle`. -/
def keepWeak (a : Nat) : Prog Process Fault Unit := do
  (refBase k a).incWeak
  update fun s => { s with
    mPostWriteWeakDerefs := s.mPostWriteWeakDerefs ++ [a], pushed := s.pushed ++ [.weak a] }

/-- `IPCThreadState_incWeakHandle` -/
def incWeakHandle (handle : BitVec 32) (a : Nat) : Prog Process Fault Unit := do
  write (.BC_INCREFS handle)
  let flushed ← flushIfNeeded k
  if flushed = true then pure () else keepWeak k a

/-! ## The callbacks of a proxy -/

/-- `BpBinder_onFirstRef`. A binder of this process has no such function. -/
def onFirstRef (a : Nat) : Prog Process Fault Unit := do
  let s ← thisProcess
  match (s.objects a).binder_handle with
  | none => pure ()
  | some handle => incStrongHandle k handle a

/-- `BpBinder_onLastStrongRef` of a proxy without death links. -/
def onLastStrongRef (a : Nat) : Prog Process Fault Unit := do
  let s ← thisProcess
  match (s.objects a).binder_handle with
  | none => pure ()
  | some handle => decStrongHandle k handle

/-- The functions tied together to a depth. -/
def knot : Nat → Knot
  | 0 => ⟨fault .tooDeep, fun _ => fault .tooDeep, fun _ => fault .tooDeep⟩
  | n + 1 => ⟨talkWithDriver (knot n), onFirstRef (knot n), onLastStrongRef (knot n)⟩

/-! ## The handle table -/

/-- `BpBinder_new` and `BpBinder_ctor` -/
def newProxy (handle : BitVec 32) : Prog Process Fault Nat := do
  let s ← thisProcess
  update fun s => { s with
    objects := Function.update s.objects s.next
      ⟨some handle, WeakrefImpl.ctor.extendObjectLifetime OBJECT_LIFETIME_WEAK⟩
    next := s.next + 1 }
  incWeakHandle k handle s.next
  pure s.next

/-- `PrivateAccessor_create` and `BpBinder_create`: NULL for a uid with too many proxies. -/
def create (handle : BitVec 32) : Prog Process Fault Nat := do
  let s ← thisProcess
  if s.throttled = true then pure 0 else newProxy k handle

/-- A handle as a `size_t`. -/
def handleSize (handle : BitVec 32) : Nat := (handle.signExtend 64).toNat

/-- `ProcessState_lookupHandleLocked`: the place of the entry, nothing for NULL. -/
def lookupHandleLocked (handle : BitVec 32) : Prog Process Fault (Option Nat) := fun s =>
  let N := s.mHandleToObject.m_items.length
  if N ≤ handleSize handle then
    match s.mHandleToObject.append s.entries.length
      (szSub (sz (handleSize handle + 1)) N) s.granted with
    | .error e => .error e
    | .ok (err, table) =>
      let s' := { s with mHandleToObject := table, entries := s.entries ++ [⟨0⟩] }
      if err < STATUS_OK then .ok (none, s')
      else .ok (table.get handle.toInt, s')
  else .ok (s.mHandleToObject.get handle.toInt, s)

/-- Reads an entry. -/
def loadEntry (e : Nat) : Prog Process Fault HandleEntry := fun s =>
  match s.entries[e]? with
  | none => .error .loadOutside
  | some entry => .ok (entry, s)

/-- Stores the binder of an entry. -/
def storeEntry (e : Nat) (binder : Nat) : Prog Process Fault Unit :=
  update fun s => { s with entries := s.entries.set e ⟨binder⟩ }

/-- The ping of the context manager, whose answer the environment gives. -/
def ping : Prog Process Fault Int := do
  write (.BC_TRANSACTION ⟨0, 0, 0x5f504e47#32, 0x10#32, 0, 0, 0, 0, 0, 0⟩)
  k.talkWithDriver
  let s ← thisProcess
  pure s.pingStatus

/-- The creating path of `ProcessState_getStrongProxyForHandle`, after the ping. -/
def createAt (e : Nat) (handle : BitVec 32) : Prog Process Fault Nat := do
  let b ← create k handle
  storeEntry e b
  pure b

/-- The creating path of `ProcessState_getStrongProxyForHandle`. -/
def createProxy (e : Nat) (handle : BitVec 32) : Prog Process Fault Nat := do
  if handle = 0 then do
    let status ← ping k
    if status = STATUS_DEAD_OBJECT then pure 0 else createAt k e handle
  else createAt k e handle

/-- The path of `ProcessState_getStrongProxyForHandle` that finds a proxy. -/
def reviveProxy (b : Nat) : Prog Process Fault Nat := do
  (refBase k b).forceIncStrong
  (refBase k b).decWeak
  pure b

/-- `b == NULL || !e->refs->attemptIncWeak(e->refs, this)` -/
def isGone (b : Nat) : Prog Process Fault Bool :=
  if b = 0 then pure true
  else do
    let ok ← (refBase k b).attemptIncWeak
    pure (!ok)

/-- The part of `ProcessState_getStrongProxyForHandle` at an entry. -/
def proxyAt (e : Nat) (handle : BitVec 32) : Prog Process Fault Nat := do
  let entry ← loadEntry e
  let gone ← isGone k entry.binder
  if gone = true then createProxy k e handle else reviveProxy k entry.binder

/-- `ProcessState_getStrongProxyForHandle` -/
def getStrongProxyForHandle (handle : BitVec 32) : Prog Process Fault Nat := do
  let s ← thisProcess
  if handle = 0 ∧ s.mContextObject ≠ 0 then pure s.mContextObject
  else do
    let found ← lookupHandleLocked handle
    match found with
    | none => pure s.mContextObject
    | some e => proxyAt k e handle

/-- `ProcessState_expungeHandle` -/
def expungeHandle (handle : BitVec 32) (binder : Nat) : Prog Process Fault Unit := do
  let found ← lookupHandleLocked handle
  match found with
  | none => pure ()
  | some e => do
    let entry ← loadEntry e
    if entry.binder = binder then storeEntry e 0 else pure ()

end Process

end system_binder
