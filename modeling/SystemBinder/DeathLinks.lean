-- The death links of a proxy. `linkToDeath` keeps the address of a local variable, which
-- is dead when the function has returned: what a later load finds there is up to `stale`.
import SystemBinder.BinderCommands
import SystemBinder.RefBase

open prog

namespace system_binder

/-- `Obituary` -/
structure Obituary where
  recipient : BitVec 64
  cookie : BitVec 64
  flags : BitVec 32
deriving DecidableEq, Repr

/-- What a dead local variable does: load `n` of one finds anything or stops the process, and
`free` of the address of one returns or does not. -/
structure DeadLocals where
  stale : Nat → Option Obituary
  freeReturns : Nat → Bool

/-- A proxy with its death links, on its thread. An entry of `mObituaries` is the address of the
local variable of one call, and stands for it by the number of the call. `busy` is the
condition under which `flushIfNeeded` does nothing. `queued` keeps all commands ever written,
`answered` counts the answers of the driver to a clear, and `died` keeps the recipients told. -/
structure DeathState (W : Type) where
  this : BitVec 64
  binder_handle : BitVec 32
  refs : WeakrefImpl
  mAlive : Bool
  mObitsSent : Bool
  mObituaries : Option (List Nat)
  busy : Bool
  mOut : List OutCommand
  queued : List OutCommand
  answered : Nat
  died : List (BitVec 64)
  calls : Nat
  loads : Nat
  dead : DeadLocals
  world : W

/-- What else the functions reach: the recipients, and the references that wait for the driver. -/
structure DeathWorld (W : Type) where
  attemptIncStrong : BitVec 64 → Prog W Fault Bool
  binderDied : BitVec 64 → Prog W Fault Unit
  processPostWriteDerefs : Prog W Fault Unit

namespace DeathState

variable {W : Type} (x : DeathWorld W)

/-! ## Reaching the state -/

def thisProxy : Prog (DeathState W) Fault (DeathState W) := fun s => .ok (s, s)

def update (f : DeathState W → DeathState W) : Prog (DeathState W) Fault Unit := fun s =>
  .ok ((), f s)

def outside {α : Type} (m : Prog W Fault α) : Prog (DeathState W) Fault α :=
  zoom DeathState.world (fun w s => { s with world := w }) m

/-- The counts of the proxy. Its class has no function for the last weak reference. -/
def weakref : RefBase (DeathState W) where
  refs := fun s => s.refs
  putRefs := fun r s => { s with refs := r }
  refs_put := fun _ _ => rfl
  put_put := fun _ _ _ => rfl
  put_refs := fun _ => rfl
  onFirstRef := pure ()
  onLastStrongRef := pure ()
  onIncStrongAttempted := pure false
  onLastWeakRef := pure ()

/-- Writes a command to `mOut`, which has memory for it. -/
def write (cmd : OutCommand) : Prog (DeathState W) Fault Unit :=
  update fun s => { s with mOut := s.mOut ++ [cmd], queued := s.queued ++ [cmd] }

/-- `IPCThreadState_flushCommands`: the driver takes all commands, and then the thread releases
the references that waited for it. The lock of the proxy is held, so these are of others. -/
def flushCommands : Prog (DeathState W) Fault Unit := do
  update fun s => { s with mOut := [] }
  outside x.processPostWriteDerefs

/-- `IPCThreadState_flushIfNeeded` -/
def flushIfNeeded : Prog (DeathState W) Fault Unit := do
  let s ← thisProxy
  if s.busy = true then pure () else flushCommands x

/-- `IPCThreadState_requestDeathNotification` -/
def requestDeathNotification : Prog (DeathState W) Fault Unit := do
  let s ← thisProxy
  write (.BC_REQUEST_DEATH_NOTIFICATION s.binder_handle s.this)

/-- `IPCThreadState_clearDeathNotification` -/
def clearDeathNotification : Prog (DeathState W) Fault Unit := do
  let s ← thisProxy
  write (.BC_CLEAR_DEATH_NOTIFICATION s.binder_handle s.this)

/-- Loads what an entry of `mObituaries` points to. -/
def loadObituary : Prog (DeathState W) Fault Obituary := fun s =>
  match s.dead.stale s.loads with
  | none => .error .loadOutside
  | some ob => .ok (ob, { s with loads := s.loads + 1 })

/-- `free` of an entry of `mObituaries`. -/
def freeObituary : Prog (DeathState W) Fault Unit := fun s =>
  if s.dead.freeReturns s.loads = true then .ok ((), s) else .error .storeOutside

/-! ## The functions -/

/-- The first link of a proxy: asks the driver. -/
def firstLink : Prog (DeathState W) Fault Unit := do
  update fun s => { s with mObituaries := some [] }
  weakref.incWeak
  requestDeathNotification
  flushCommands x

/-- `this->mObituaries->add(this->mObituaries, &ob)` -/
def addObituary (ob : Nat) : Prog (DeathState W) Fault Unit :=
  update fun s => { s with mObituaries := s.mObituaries.map fun obits => obits ++ [ob] }

/-- `BpBinder_linkToDeath`. What its local `ob` holds is lost at the return. -/
def linkToDeath (recipient _cookie : BitVec 64) (_flags : BitVec 32) :
    Prog (DeathState W) Fault Int := do
  if recipient = 0 then fault (.logFatal "linkToDeath(): recipient must be non-NULL")
  else do
    let s ← thisProxy
    update fun s => { s with calls := s.calls + 1 }
    if s.mObitsSent = true then pure STATUS_DEAD_OBJECT
    else if s.mObituaries = none then do
      firstLink x
      addObituary s.calls
      pure STATUS_OK
    else do
      addObituary s.calls
      pure STATUS_OK

/-- `(obit->recipient == recipient || (recipient == NULL && obit->cookie == cookie))
&& obit->flags == flags` -/
def Obituary.matches (obit : Obituary) (recipient cookie : BitVec 64) (flags : BitVec 32) : Bool :=
  (obit.recipient == recipient || (recipient == 0 && obit.cookie == cookie)) && obit.flags == flags

/-- The end of `BpBinder_unlinkToDeath`, at the entry `i` that matches. -/
def unlinkAt (i : Nat) : Prog (DeathState W) Fault (Int × BitVec 64) := do
  let obit ← loadObituary
  update fun s => { s with mObituaries := s.mObituaries.map fun obits => obits.eraseIdx i }
  freeObituary
  let s ← thisProxy
  if s.mObituaries = some [] then do
    clearDeathNotification
    flushCommands x
    update fun s => { s with mObituaries := none }
    pure (STATUS_OK, obit.recipient)
  else pure (STATUS_OK, obit.recipient)

/-- The loop of `BpBinder_unlinkToDeath` over `n` more entries from `i` on. -/
def unlinkLoop (recipient cookie : BitVec 64) (flags : BitVec 32) :
    Nat → Nat → Prog (DeathState W) Fault (Int × BitVec 64)
  | 0, _ => pure (STATUS_NAME_NOT_FOUND, 0)
  | n + 1, i => do
    let obit ← loadObituary
    if Obituary.matches obit recipient cookie flags = true then unlinkAt x i
    else unlinkLoop recipient cookie flags n (i + 1)

/-- `BpBinder_unlinkToDeath`: the result, and what it stores through `outRecipient`, 0 for
nothing. -/
def unlinkToDeath (recipient cookie : BitVec 64) (flags : BitVec 32) :
    Prog (DeathState W) Fault (Int × BitVec 64) := do
  let s ← thisProxy
  if s.mObitsSent = true then pure (STATUS_DEAD_OBJECT, 0)
  else unlinkLoop x recipient cookie flags (s.mObituaries.getD []).length 0

/-- `BpBinder_reportOneDeath` -/
def reportOneDeath : Prog (DeathState W) Fault Unit := do
  let asked ← loadObituary
  let _ ← outside (x.attemptIncStrong asked.recipient)
  let obit ← loadObituary
  if obit.recipient = 0 then pure ()
  else do
    weakref.incWeak
    update fun s => { s with died := s.died ++ [obit.recipient] }
    outside (x.binderDied obit.recipient)

/-- The loop of `BpBinder_sendObituary`. -/
def reportDeaths : Nat → Prog (DeathState W) Fault Unit
  | 0 => pure ()
  | n + 1 => do
    reportOneDeath x
    reportDeaths n

/-- The locked part of `BpBinder_sendObituary`. -/
def closeObituaries : Prog (DeathState W) Fault Unit := do
  let s ← thisProxy
  if s.mObituaries = none then update fun s => { s with mObitsSent := true }
  else do
    clearDeathNotification
    flushCommands x
    update fun s => { s with mObituaries := none, mObitsSent := true }

/-- `BpBinder_sendObituary` -/
def sendObituary : Prog (DeathState W) Fault Unit := do
  update fun s => { s with mAlive := false }
  let s ← thisProxy
  if s.mObitsSent = true then pure ()
  else do
    closeObituaries x
    reportDeaths x (s.mObituaries.getD []).length

/-- `IPCThreadState_decStrongHandle` -/
def decStrongHandle : Prog (DeathState W) Fault Unit := do
  let s ← thisProxy
  write (.BC_RELEASE s.binder_handle)
  flushIfNeeded x

/-- `BpBinder_onLastStrongRef` -/
def onLastStrongRef : Prog (DeathState W) Fault Unit := do
  decStrongHandle x
  let s ← thisProxy
  if s.mObituaries = none then pure ()
  else do
    clearDeathNotification
    update fun s => { s with mObituaries := none }

/-- `IPCThreadState_executeCommand` of a BR_CLEAR_DEATH_NOTIFICATION_DONE. -/
def clearDeathNotificationDone : Prog (DeathState W) Fault Unit := do
  update fun s => { s with answered := s.answered + 1 }
  weakref.decWeak

end DeathState

end system_binder
