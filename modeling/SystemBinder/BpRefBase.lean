-- The proxy object of an interface: an object with reference counts of its own that holds one
-- weak reference on its remote binder for its life, and strong ones while it is owned.
import SystemBinder.RefBase

open prog

namespace system_binder

def kRemoteAcquired : BitVec 32 := 0x00000001#32

/-- `BpRefBase`. The remote binder is an object in the rest of the process, and `mRefs` are its
counts. -/
structure BpRefBase (W : Type) where
  m_refbase : WeakrefImpl
  mRemote : Option (RefBase W)
  mRefs : Option (RefBase W)
  mState : BitVec 32
  world : W

namespace BpRefBase

variable {W α : Type}

/-! ## The remote binder -/

/-- A function of the remote binder. -/
def onRemote (m : Prog W Fault α) : Prog (BpRefBase W) Fault α :=
  zoom world (fun w this => { this with world := w }) m

/-- `mRefs->attemptIncStrong` -/
def attemptRemote : Option (RefBase W) → Prog (BpRefBase W) Fault Bool
  | some refs => onRemote refs.attemptIncStrong
  | none => fault .nullPointer

/-- `mRefs->decWeak` -/
def releaseRefs : Option (RefBase W) → Prog (BpRefBase W) Fault Unit
  | some refs => onRemote refs.decWeak
  | none => fault .nullPointer

/-! ## The virtual functions -/

/-- `BpRefBase_onFirstRef` -/
def onFirstRef : Prog (BpRefBase W) Fault Unit :=
  modify fun this => { this with mState := this.mState ||| kRemoteAcquired }

/-- `BpRefBase_onLastStrongRef` -/
def onLastStrongRef : Prog (BpRefBase W) Fault Unit := do
  let this ← get
  match this.mRemote with
  | some remote => onRemote remote.decStrong
  | none => pure ()

/-- `BpRefBase_onIncStrongAttempted` -/
def onIncStrongAttempted : Prog (BpRefBase W) Fault Bool := do
  let this ← get
  if this.mRemote.isSome = true then attemptRemote this.mRefs else pure false

/-- The object, as RefBase sees it. -/
def object : RefBase (BpRefBase W) where
  refs := m_refbase
  putRefs := fun r this => { this with m_refbase := r }
  refs_put := fun _ _ => rfl
  put_put := fun _ _ _ => rfl
  put_refs := fun _ => rfl
  onFirstRef := onFirstRef
  onLastStrongRef := onLastStrongRef
  onIncStrongAttempted := onIncStrongAttempted
  onLastWeakRef := pure ()

/-! ## Life -/

/-- Memory that the constructor fills, in a process. -/
def blank (world : W) : BpRefBase W where
  m_refbase := WeakrefImpl.ctor
  mRemote := none
  mRefs := none
  mState := 0
  world := world

/-- `BpRefBase_ctor` -/
def ctor (ibinder : Option (RefBase W)) : Prog (BpRefBase W) Fault Unit := do
  modify fun this =>
    { this with
      m_refbase := WeakrefImpl.ctor.extendObjectLifetime OBJECT_LIFETIME_WEAK
      mRemote := ibinder
      mRefs := none
      mState := 0 }
  match ibinder with
  | some remote => do
    onRemote remote.incStrong
    onRemote remote.createWeak
    modify fun this => { this with mRefs := some remote }
  | none => pure ()

/-- The end of `BpRefBase_dtor` for a remote binder. -/
def giveBack (remote : RefBase W) : Prog (BpRefBase W) Fault Unit := do
  let this ← get
  if this.mState &&& kRemoteAcquired = 0 then onRemote remote.decStrong else pure ()

/-- `BpRefBase_dtor` -/
def dtor : Prog (BpRefBase W) Fault Unit := do
  let this ← get
  match this.mRemote with
  | some remote => do
    giveBack remote
    releaseRefs this.mRefs
    object.dtor
  | none => object.dtor

end BpRefBase

end system_binder
