-- Binders and interface tokens in a Parcel: an object and its stability word,
-- and the header that a request starts with.
import SystemBinder.ParcelData

open prog memory

namespace system_binder

/-! ## The data -/

/-- The fields of `IPCThreadState` that say for whom the thread works. -/
structure ThreadState where
  mServingStackPointer : Option Nat
  mCallingPid : BitVec 32
  mCallingSid : Option String
  mCallingUid : BitVec 32
  mStrictModePolicy : BitVec 32
  mLastTransactionBinderFlags : BitVec 32
  mWorkSource : BitVec 32
  mPropagateWorkSource : Bool
deriving DecidableEq, Repr

/-- What else `Parcel.c` reaches: the state of its thread, and the functions of a binder.
A binder is the address of its `IBinder`, 0 for NULL. -/
structure Calls (W : Type) extends Outside W where
  thread : W → ThreadState
  putThread : ThreadState → W → W
  backgroundSchedulingDisabled : Prog W Fault Bool
  getInterfaceDescriptor : BitVec 64 → Prog W Fault BinderString
  localBinder : BitVec 64 → Prog W Fault (BitVec 64)
  remoteBinder : BitVec 64 → Prog W Fault (BitVec 64)
  mStability : BitVec 64 → Prog W Fault (BitVec 16)
  putStability : BitVec 64 → BitVec 16 → Prog W Fault Unit
  setParceled : BitVec 64 → Prog W Fault Unit
  getMinSchedulerPolicy : BitVec 64 → Prog W Fault (BitVec 32)
  getMinSchedulerPriority : BitVec 64 → Prog W Fault (BitVec 32)
  isRequestingSid : BitVec 64 → Prog W Fault Bool
  isInheritRt : BitVec 64 → Prog W Fault Bool
  getWeakRefs : BitVec 64 → Prog W Fault (BitVec 64)
  incStrongRequireStrong : BitVec 64 → Prog W Fault Unit
  binderHandle : BitVec 64 → Prog W Fault (BitVec 32)

def FLAG_ONEWAY : BitVec 32 := 1#32

def SCHED_NORMAL : BitVec 32 := 0#32
def FLAT_BINDER_FLAG_PRIORITY_MASK : BitVec 32 := 0xff#32
def FLAT_BINDER_FLAG_SCHED_POLICY_SHIFT : Nat := 9
def FLAT_BINDER_FLAG_INHERIT_RT : BitVec 32 := 0x800#32
def FLAT_BINDER_FLAG_TXN_SECURITY_CTX : BitVec 32 := 0x1000#32

/-- `B_PACK_CHARS('S', 'Y', 'S', 'T')` -/
def kHeader : BitVec 32 := 0x53595354#32

def STRICT_MODE_PENALTY_GATHER : BitVec 32 := 1#32 <<< 31

/-! ## Stability -/

namespace Stability

def UNDECLARED : BitVec 32 := 0#32
def VENDOR : BitVec 32 := 0b000011#32
def SYSTEM : BitVec 32 := 0b001100#32
def VINTF : BitVec 32 := 0b111111#32

def getLocalLevel : BitVec 32 := SYSTEM

def isDeclaredLevel (stability : BitVec 32) : Bool :=
  stability == VENDOR || stability == SYSTEM || stability == VINTF

/-- `check` -/
def check (provided required : BitVec 32) : Bool :=
  if provided ≠ UNDECLARED ∧ isDeclaredLevel provided = false then false
  else provided &&& required == required

section

variable {W : Type} (x : Calls W)

/-- The object whose `mStability` a binder has. -/
def holder (binder : BitVec 64) : Prog W Fault (BitVec 64) := do
  let loc ← x.localBinder binder
  if loc ≠ 0 then pure loc else x.remoteBinder binder

/-- `Stability_getRepr` -/
def getRepr (binder : BitVec 64) : Prog W Fault (BitVec 16) := do
  if binder = 0 then pure 0
  else do
    let obj ← holder x binder
    x.mStability obj

/-- `Stability_setRepr`. It only logs where `REPR_LOG` is among the flags. -/
def setRepr (binder : BitVec 64) (setting : BitVec 32) (allowDowngrade : Bool) :
    Prog W Fault Int := do
  let current := (← getRepr x binder).signExtend 32
  if binder = 0 then pure (if setting = UNDECLARED then STATUS_OK else STATUS_BAD_TYPE)
  else if isDeclaredLevel setting = false then pure STATUS_BAD_TYPE
  else if current = setting then pure STATUS_OK
  else if current ≠ UNDECLARED ∧ ¬(allowDowngrade = true ∧ check current setting = true) then
    pure STATUS_BAD_TYPE
  else do
    let obj ← holder x binder
    x.putStability obj (setting.setWidth 16)
    pure STATUS_OK

/-- `Stability_tryMarkCompilationUnit` -/
def tryMarkCompilationUnit (binder : BitVec 64) : Prog W Fault Unit := do
  let _ ← setRepr x binder getLocalLevel false
  pure ()

end

end Stability

namespace Parcel

variable {W : Type} (x : Calls W)

/-! ## Binders -/

/-- `Parcel_finishFlattenBinder` -/
def finishFlattenBinder (binder : BitVec 64) : Prog (Ctx W) Fault Int := do
  outside (Stability.tryMarkCompilationUnit x binder)
  let rep ← outside (Stability.getRepr x binder)
  writeInt32 x.toOutside (rep.signExtend 32)

/-- `Parcel_finishUnflattenBinder`: the status and `*out`, nothing where it is not set. -/
def finishUnflattenBinder (binder : BitVec 64) : Prog (Ctx W) Fault (Int × Option (BitVec 64)) := do
  let old ← indeterminate
  let (status, stability) ← readInt32 old
  if status ≠ STATUS_OK then pure (status, none)
  else do
    -- the flags are `true`, which is `REPR_LOG`
    let status ← outside (Stability.setRepr x binder ((stability.setWidth 16).signExtend 32) false)
    if status ≠ STATUS_OK then pure (status, none) else pure (STATUS_OK, some binder)

/-- `schedPolicyMask` -/
def schedPolicyMask (policy priority : BitVec 32) : BitVec 32 :=
  priority &&& FLAT_BINDER_FLAG_PRIORITY_MASK |||
    (policy &&& 3) <<< FLAT_BINDER_FLAG_SCHED_POLICY_SHIFT

/-- The flat object of a proxy, put into `obj`. -/
def flatProxy (binder : BitVec 64) (schedBits : BitVec 32) (obj : FlatBinderObject) :
    Prog W Fault FlatBinderObject := do
  let proxy ← x.remoteBinder binder
  let handle ← if proxy ≠ 0 then x.binderHandle proxy else pure 0
  let obj := { obj with type := BINDER_TYPE_HANDLE }
  let obj := { obj with binder := 0 }
  let obj := { obj with flags := 0 }
  let obj := obj.setHandle handle
  let obj := { obj with cookie := 0 }
  pure { obj with flags := obj.flags ||| schedBits }

/-- The flat object of a local binder, put into `obj`. -/
def flatLocal (loc : BitVec 64) (schedBits : BitVec 32) (obj : FlatBinderObject) :
    Prog W Fault FlatBinderObject := do
  let policy ← x.getMinSchedulerPolicy loc
  let priority ← x.getMinSchedulerPriority loc
  -- override the value where it is set explicitly
  let schedBits := if policy ≠ 0 ∨ priority ≠ 0 then schedPolicyMask policy priority else schedBits
  let obj := { obj with flags := FLAT_BINDER_FLAG_ACCEPTS_FDS }
  let sid ← x.isRequestingSid loc
  let obj :=
    if sid then { obj with flags := obj.flags ||| FLAT_BINDER_FLAG_TXN_SECURITY_CTX } else obj
  let rt ← x.isInheritRt loc
  let obj := if rt then { obj with flags := obj.flags ||| FLAT_BINDER_FLAG_INHERIT_RT } else obj
  let obj := { obj with type := BINDER_TYPE_BINDER }
  let refs ← x.getWeakRefs loc
  let obj := { obj with binder := refs }
  let obj := { obj with cookie := loc }
  pure { obj with flags := obj.flags ||| schedBits }

/-- The flat object of a binder, put into `obj`, with what `Parcel_flattenBinder` marks on the
way. -/
def flatOf (binder : BitVec 64) (obj : FlatBinderObject) : Prog W Fault FlatBinderObject := do
  let loc ← if binder ≠ 0 then x.localBinder binder else pure 0
  if loc ≠ 0 then x.setParceled loc else pure ()
  let disabled ← x.backgroundSchedulingDisabled
  let schedBits := if disabled then 0 else schedPolicyMask SCHED_NORMAL 19
  if binder ≠ 0 then
    if loc = 0 then flatProxy x binder schedBits obj else flatLocal x loc schedBits obj
  else
    let obj := { obj with type := BINDER_TYPE_BINDER }
    let obj := { obj with flags := 0 }
    let obj := { obj with binder := 0 }
    let obj := { obj with cookie := 0 }
    pure { obj with flags := obj.flags ||| schedBits }

/-- Every field of a proxy's flat object is set. -/
theorem flatProxy_eq (binder : BitVec 64) (schedBits : BitVec 32) (obj : FlatBinderObject) :
    flatProxy x binder schedBits obj = (do
      let proxy ← x.remoteBinder binder
      let handle ← if proxy ≠ 0 then x.binderHandle proxy else pure 0
      pure ⟨BINDER_TYPE_HANDLE, schedBits, handle.setWidth 64, 0⟩) := by
  have hzero : (0 : BitVec 32) ||| schedBits = schedBits := by simp
  simp only [flatProxy, FlatBinderObject.setHandle_zero, hzero]

/-- And every field of a local binder's. -/
theorem flatLocal_eq (loc : BitVec 64) (schedBits : BitVec 32) (obj : FlatBinderObject) :
    flatLocal x loc schedBits obj = (do
      let policy ← x.getMinSchedulerPolicy loc
      let priority ← x.getMinSchedulerPriority loc
      let sid ← x.isRequestingSid loc
      let rt ← x.isInheritRt loc
      let refs ← x.getWeakRefs loc
      pure
        { type := BINDER_TYPE_BINDER
          flags := FLAT_BINDER_FLAG_ACCEPTS_FDS |||
            (if sid then FLAT_BINDER_FLAG_TXN_SECURITY_CTX else 0) |||
            (if rt then FLAT_BINDER_FLAG_INHERIT_RT else 0) |||
            (if policy ≠ 0 ∨ priority ≠ 0 then schedPolicyMask policy priority else schedBits)
          binder := refs
          cookie := loc }) := by
  unfold flatLocal
  refine bind_congr fun policy => bind_congr fun priority => bind_congr fun sid => ?_
  refine bind_congr fun rt => bind_congr fun refs => ?_
  cases sid <;> cases rt <;> simp

/-- What the variable held before is not seen. -/
theorem flatOf_any (binder : BitVec 64) (obj obj' : FlatBinderObject) :
    flatOf x binder obj = flatOf x binder obj' := by
  unfold flatOf
  simp only [flatProxy_eq, flatLocal_eq]

/-- `Parcel_flattenBinder` -/
def flattenBinder (binder : BitVec 64) : Prog (Ctx W) Fault Int := do
  let obj ← indeterminateObject
  let obj ← outside (flatOf x binder obj)
  let status ← writeObject x.toOutside obj false
  if status ≠ STATUS_OK then pure status else finishFlattenBinder x binder

/-- `Parcel_unflattenBinder`: the status and `*out`. -/
def unflattenBinder : Prog (Ctx W) Fault (Int × Option (BitVec 64)) := do
  match ← readObject false with
  | none => pure (STATUS_BAD_TYPE, none)
  | some flat =>
    if flat.type = BINDER_TYPE_BINDER then do
      outside (x.incStrongRequireStrong flat.cookie)
      finishUnflattenBinder x flat.cookie
    else if flat.type = BINDER_TYPE_HANDLE then do
      let binder ← outside (x.getStrongProxyForHandle flat.handle)
      finishUnflattenBinder x binder
    else pure (STATUS_BAD_TYPE, none)

/-- `Parcel_writeStrongBinder` -/
def writeStrongBinder (val : BitVec 64) : Prog (Ctx W) Fault Int := flattenBinder x val

/-- `Parcel_readNullableStrongBinder` -/
def readNullableStrongBinder : Prog (Ctx W) Fault (Int × Option (BitVec 64)) := unflattenBinder x

/-- `Parcel_readStrongBinder` -/
def readStrongBinder : Prog (Ctx W) Fault (Int × Option (BitVec 64)) := do
  let (status, val) ← readNullableStrongBinder x
  if status = STATUS_OK ∧ val = some 0 then pure (STATUS_UNEXPECTED_NULL, val)
  else pure (status, val)

/-! ## The header of a request -/

/-- A call that changes the state of the thread. -/
def updateThread (f : ThreadState → ThreadState) : Prog (Ctx W) Fault Unit := fun c =>
  .ok ((), c.setWorld (x.putThread (f (x.thread c.world)) c.world))

/-- The state of the thread. -/
def thisThread : Prog (Ctx W) Fault ThreadState := fun c => .ok (x.thread c.world, c)

@[simp] theorem wp_updateThread {c : Ctx W} {E : Fault → Prop} {Q : Unit → Ctx W → Prop}
    (f : ThreadState → ThreadState) :
    wp (updateThread x f) Q E c ↔
      Q () (c.setWorld (x.putThread (f (x.thread c.world)) c.world)) := Iff.rfl

@[simp] theorem wp_thisThread {c : Ctx W} {E : Fault → Prop} {Q : ThreadState → Ctx W → Prop} :
    wp (thisThread x) Q E c ↔ Q (x.thread c.world) c := Iff.rfl

/-- `Parcel_updateWorkSourceRequestHeaderPosition` -/
def updateWorkSourceRequestHeaderPosition : Prog (Ctx W) Fault Unit := do
  let p ← thisParcel
  if p.mRequestHeaderPresent = false then
    update (fun p => { p with
      mWorkSourceRequestHeaderPosition := p.mDataPos, mRequestHeaderPresent := true })
  else pure ()

/-- `Parcel_writeInterfaceToken` -/
def writeInterfaceToken (interface : BinderString) : Prog (Ctx W) Fault Int := do
  let t ← thisThread x
  let _ ← writeInt32 x.toOutside (t.mStrictModePolicy ||| STRICT_MODE_PENALTY_GATHER)
  updateWorkSourceRequestHeaderPosition
  let t ← thisThread x
  let _ ← writeInt32 x.toOutside (if t.mPropagateWorkSource then t.mWorkSource else -1)
  let _ ← writeInt32 x.toOutside kHeader
  writeString16 x.toOutside (some interface)

/-- The end of `Parcel_enforceInterface`: the descriptor read is the one expected. -/
def sameInterface (interface : BinderString) (len : Nat) : Prog (Ctx W) Fault Bool := do
  let (parcel_interface, parcel_interface_len) ← readString8Inplace
  if len ≠ parcel_interface_len then pure false
  else if len = 0 then pure true
  else
    match parcel_interface with
    | none => fault .nullPointer
    | some str => do
      let theirs ← loadData str len
      let ours ← interface.copyTo len
      pure (theirs == ours)

/-- A word read into a fresh variable. The status of the read is ignored. -/
def readWord : Prog (Ctx W) Fault (BitVec 32) := do
  let old ← indeterminate
  let (_, val) ← readInt32 old
  pure val

/-- The StrictMode policy that came with the request. One-way calls run disconnected from
the caller. -/
def takePolicy (strictPolicy : BitVec 32) : Prog (Ctx W) Fault Unit := do
  let t ← thisThread x
  if t.mLastTransactionBinderFlags &&& FLAG_ONEWAY ≠ 0 then
    updateThread x (fun t => { t with mStrictModePolicy := 0 })
  else updateThread x (fun t => { t with mStrictModePolicy := strictPolicy })

/-- `Parcel_enforceInterface` -/
def enforceInterface (interface : BinderString) (len : Nat) : Prog (Ctx W) Fault Bool := do
  let strictPolicy ← readWord
  takePolicy x strictPolicy
  updateWorkSourceRequestHeaderPosition
  let workSource ← readWord
  updateThread x (fun t => { t with mWorkSource := workSource })
  let header ← readWord
  if header ≠ kHeader then pure false else sameInterface interface len

/-- `Parcel_checkInterface` -/
def checkInterface (binder : BitVec 64) : Prog (Ctx W) Fault Bool := do
  let descriptor ← outside (x.getInterfaceDescriptor binder)
  enforceInterface x descriptor descriptor.mSize

end Parcel

end system_binder
