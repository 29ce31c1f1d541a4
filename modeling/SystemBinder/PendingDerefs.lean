-- The derefs that a thread has put off: a vector of weak references and one of binders. To work
-- them off runs destructors, which may put more into both.
import SystemBinder.Vector

open prog

namespace system_binder.IPCThreadState

/-- A reference that is to be given back. -/
inductive Deref
  | weak (refs : BitVec 64)
  | strong (obj : BitVec 64)
deriving DecidableEq, Repr

/-- A deref that a destructor puts off. `granted` says whether the memory for it is to be had
where its vector has to grow. -/
structure Push where
  deref : Deref
  granted : Bool
deriving DecidableEq, Repr

/-- What is behind `decWeak` and `decStrong`: the derefs that the destructors put off, in order,
and what becomes of everything else. `granted` is what `realloc` answers where a vector
shrinks. -/
structure Callees (W : Type) where
  decWeak : BitVec 64 → W → List Push × W
  decStrong : BitVec 64 → W → List Push × W
  granted : W → Bool

/-- The thread. -/
structure Thread (W : Type) where
  mPendingWeakDerefs : VectorBase (BitVec 64)
  mPendingStrongDerefs : VectorBase (BitVec 64)
  mInDataPos : Nat
  world : W

variable {W : Type}

/-! ## The calls -/

/-- `VectorImpl_push` into the vector of the deref. -/
def push (p : Push) (s : Thread W) : Except Fault (Thread W) :=
  match p.deref with
  | .weak refs => (s.mPendingWeakDerefs.add refs p.granted).map fun v =>
    { s with mPendingWeakDerefs := v }
  | .strong obj => (s.mPendingStrongDerefs.add obj p.granted).map fun v =>
    { s with mPendingStrongDerefs := v }

def pushAll : List Push → Thread W → Except Fault (Thread W)
  | [], s => .ok s
  | p :: ps, s =>
    match push p s with
    | .ok s' => pushAll ps s'
    | .error e => .error e

/-- The call, in which destructors put derefs off. -/
def perform (callee : W → List Push × W) : Prog (Thread W) Fault Unit := fun s =>
  let (pushes, w) := callee s.world
  match pushAll pushes { s with world := w } with
  | .ok s' => .ok ((), s')
  | .error e => .error (.inCall e)

/-- `refs->decWeak(refs, ...)`. A pointer that is `-ENOENT` points nowhere. -/
def decWeak (x : Callees W) : Option (BitVec 64) → Prog (Thread W) Fault Unit
  | some refs => perform (x.decWeak refs)
  | none => fault .loadOutside

/-- `obj->decStrong(obj, ...)` -/
def decStrong (x : Callees W) : Option (BitVec 64) → Prog (Thread W) Fault Unit
  | some obj => perform (x.decStrong obj)
  | none => fault .loadOutside

/-! ## The loops -/

/-- The body of the inner loop. -/
def derefWeak (x : Callees W) : Prog (Thread W) Fault Unit := do
  let s ← get
  let refs := s.mPendingWeakDerefs.get 0
  set { s with mPendingWeakDerefs := (s.mPendingWeakDerefs.delete 0 (x.granted s.world)).2 }
  decWeak x refs

/-- The same with a binder. -/
def derefStrong (x : Callees W) : Prog (Thread W) Fault Unit := do
  let s ← get
  let obj := s.mPendingStrongDerefs.get 0
  set { s with mPendingStrongDerefs := (s.mPendingStrongDerefs.delete 0 (x.granted s.world)).2 }
  decStrong x obj

/-- One binder, where one is pending. -/
def derefOneStrong (x : Callees W) : Prog (Thread W) Fault Unit := do
  let s ← get
  if s.mPendingStrongDerefs.total > 0 then derefStrong x else pure ()

/-- The inner loop. -/
def derefAllWeak (x : Callees W) : Nat → Prog (Thread W) Fault Unit
  | 0 => fault .tooDeep
  | fuel + 1 => do
    let s ← get
    if s.mPendingWeakDerefs.total > 0 then do
      derefWeak x
      derefAllWeak x fuel
    else pure ()

/-- The outer loop, which gives each inner loop `turns`. -/
def derefAll (x : Callees W) (turns : Nat) : Nat → Prog (Thread W) Fault Unit
  | 0 => fault .tooDeep
  | fuel + 1 => do
    let s ← get
    if s.mPendingWeakDerefs.total > 0 ∨ s.mPendingStrongDerefs.total > 0 then do
      derefAllWeak x turns
      derefOneStrong x
      derefAll x turns fuel
    else pure ()

/-- `IPCThreadState_processPendingDerefs`. The position is compared with itself. -/
def processPendingDerefs (x : Callees W) (fuel : Nat) : Prog (Thread W) Fault Unit := do
  let s ← get
  if s.mInDataPos ≥ s.mInDataPos then derefAll x fuel fuel else pure ()

end system_binder.IPCThreadState
