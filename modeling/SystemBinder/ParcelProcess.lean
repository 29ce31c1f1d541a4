-- A process as its parcels reach it: its own binders and its proxies, what each of them is marked
-- with, and the handle table.
import SystemBinder.BBinder
import SystemBinder.Proxies

open prog

namespace system_binder

/-- A process whose binders can be put into parcels. `locals` has the attributes of its own
binders, and `refsAt` the addresses of the counts, which `getWeakRefs` gives. -/
structure ParcelProcess where
  process : Process
  mStability : Nat → BitVec 16
  locals : Nat → BBinder
  refsAt : Nat → BitVec 64
  mDisableBackgroundScheduling : Bool
  extras_lt : ∀ a e, (locals a).mExtras = some e → e < (locals a).created.length
  refsAt_ne : ∀ a, refsAt a ≠ 0

/-- What else a parcel calls, and the scheduling constants. -/
structure ParcelEnv where
  sched : Sched
  close : BitVec 32 → Prog ParcelProcess Fault Unit
  freeBuffer : Nat → Prog ParcelProcess Fault Unit
  getInterfaceDescriptor : BitVec 64 → Prog ParcelProcess Fault BinderString

namespace ParcelProcess

/-! ## Reaching the state -/

variable {α : Type}

def onProcess (m : Prog Process Fault α) : Prog ParcelProcess Fault α :=
  zoom ParcelProcess.process (fun s w => { w with process := s }) m

/-- A function of the object at an address, which is no NULL. -/
def onObject (a : BitVec 64) (m : Nat → Prog Process Fault α) : Prog ParcelProcess Fault α :=
  if a = 0 then fault .nullPointer else onProcess (m a.toNat)

/-- The handle of the binder at an address. -/
def handleOf (a : BitVec 64) : Prog ParcelProcess Fault (Option (BitVec 32)) :=
  onObject a fun a => do
    let s ← Process.thisProcess
    pure (s.objects a).binder_handle

/-- A getter of the local binder at an address. It changes nothing. -/
def ask (a : BitVec 64) (m : Prog BBinder Fault α) : Prog ParcelProcess Fault α := fun w =>
  match m (w.locals a.toNat) with
  | .ok (r, _) => .ok (r, w)
  | .error e => .error e

/-! ## The functions of a binder -/

/-- `IBinder_localBinder` and `BBinder_localBinder` -/
def localBinder (a : BitVec 64) : Prog ParcelProcess Fault (BitVec 64) := do
  let handle ← handleOf a
  pure (if handle.isSome then 0 else a)

/-- `IBinder_remoteBinder` and `BpBinder_remoteBinder` -/
def remoteBinder (a : BitVec 64) : Prog ParcelProcess Fault (BitVec 64) := do
  let handle ← handleOf a
  pure (if handle.isSome then a else 0)

/-- `BpBinder_binderHandle` -/
def binderHandle (a : BitVec 64) : Prog ParcelProcess Fault (BitVec 32) := do
  let handle ← handleOf a
  pure (handle.getD 0)

/-- `BBinder_setParceled` -/
def setParceled (a : BitVec 64) : Prog ParcelProcess Fault Unit := modify fun w =>
  { w with
    locals := Function.update w.locals a.toNat { w.locals a.toNat with mParceled := true }
    extras_lt := by
      intro b e h
      by_cases hb : b = a.toNat
      · subst hb
        simp only [Function.update_self] at h ⊢
        exact w.extras_lt _ e h
      · rw [Function.update_of_ne hb] at h ⊢
        exact w.extras_lt b e h }

/-- Stores the stability of the binder at an address. -/
def putStability (a : BitVec 64) (stability : BitVec 16) : Prog ParcelProcess Fault Unit :=
  modify fun w => { w with mStability := Function.update w.mStability a.toNat stability }

/-- `IPCThreadState_backgroundSchedulingDisabled` -/
def backgroundSchedulingDisabled : Prog ParcelProcess Fault Bool := do
  let w ← get
  pure w.mDisableBackgroundScheduling

/-- The stability of the binder at an address. -/
def stability (a : BitVec 64) : Prog ParcelProcess Fault (BitVec 16) := do
  let w ← get
  pure (w.mStability a.toNat)

/-- `BBinder_getWeakRefs` -/
def getWeakRefs (a : BitVec 64) : Prog ParcelProcess Fault (BitVec 64) := do
  let w ← get
  pure (w.refsAt a.toNat)

section

variable (k : Process.Knot)

/-- `IBinder_incStrong` and `BBinder_incStrong` -/
def incStrong (a : BitVec 64) : Prog ParcelProcess Fault Unit :=
  onObject a fun a => (Process.refBase k a).incStrong

/-- `IBinder_decStrong` and `BBinder_decStrong` -/
def decStrong (a : BitVec 64) : Prog ParcelProcess Fault Unit :=
  onObject a fun a => (Process.refBase k a).decStrong

/-- `IBinder_incStrongRequireStrong` -/
def incStrongRequireStrong (a : BitVec 64) : Prog ParcelProcess Fault Unit :=
  onObject a fun a => (Process.refBase k a).incStrongRequireStrong

def getStrongProxyForHandle (handle : BitVec 32) : Prog ParcelProcess Fault (BitVec 64) := do
  let b ← onProcess (Process.getStrongProxyForHandle k handle)
  pure (BitVec.ofNat 64 b)

end

/-- What a parcel of this process calls. -/
def calls (k : Process.Knot) (o : ParcelEnv) : Calls ParcelProcess where
  incStrong := incStrong k
  decStrong := decStrong k
  getStrongProxyForHandle := getStrongProxyForHandle k
  close := o.close
  freeBuffer := o.freeBuffer
  thread := fun w => w.process.thread
  putThread := fun thread w => { w with process := { w.process with thread := thread } }
  backgroundSchedulingDisabled := backgroundSchedulingDisabled
  getInterfaceDescriptor := o.getInterfaceDescriptor
  localBinder := localBinder
  remoteBinder := remoteBinder
  mStability := stability
  putStability := putStability
  setParceled := setParceled
  getMinSchedulerPolicy := fun a => ask a (BBinder.getMinSchedulerPolicy o.sched)
  getMinSchedulerPriority := fun a => ask a BBinder.getMinSchedulerPriority
  isRequestingSid := fun a => ask a BBinder.isRequestingSid
  isInheritRt := fun a => ask a BBinder.isInheritRt
  getWeakRefs := getWeakRefs
  incStrongRequireStrong := incStrongRequireStrong k
  binderHandle := binderHandle

section

variable (k : Process.Knot) (o : ParcelEnv)

@[simp] theorem calls_localBinder : (calls k o).localBinder = localBinder := rfl
@[simp] theorem calls_remoteBinder : (calls k o).remoteBinder = remoteBinder := rfl
@[simp] theorem calls_binderHandle : (calls k o).binderHandle = binderHandle := rfl
@[simp] theorem calls_setParceled : (calls k o).setParceled = setParceled := rfl

@[simp] theorem calls_backgroundSchedulingDisabled :
    (calls k o).backgroundSchedulingDisabled = backgroundSchedulingDisabled := rfl

end

end ParcelProcess

end system_binder
