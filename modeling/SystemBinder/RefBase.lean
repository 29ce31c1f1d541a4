-- The reference counts of an object. An object lives in some state: `refs` and
-- `putRefs` say where its two counts and its flags are, and its class installs
-- the virtual functions. Atomic operations run alone here, so a compare and
-- exchange succeeds at the first try.
import SystemBinder.Base

open prog

namespace system_binder

def INITIAL_STRONG_VALUE : BitVec 32 := 1#32 <<< 28
def MAX_COUNT : BitVec 32 := 0xfffff#32

def OBJECT_LIFETIME_STRONG : BitVec 32 := 0
def OBJECT_LIFETIME_WEAK : BitVec 32 := 1
def OBJECT_LIFETIME_MASK : BitVec 32 := 1

/-- `BAD_STRONG(c)` -/
def badStrong (c : BitVec 32) : Bool :=
  c == 0 || (c &&& ~~~(MAX_COUNT ||| INITIAL_STRONG_VALUE)) != 0

/-- `BAD_WEAK(c)` -/
def badWeak (c : BitVec 32) : Bool :=
  c == 0 || (c &&& ~~~MAX_COUNT) != 0

/-- `RefBase_weakref_impl` -/
structure WeakrefImpl where
  mStrong : BitVec 32
  mWeak : BitVec 32
  mFlags : BitVec 32
deriving DecidableEq, Repr

/-- `(flags & OBJECT_LIFETIME_MASK) == OBJECT_LIFETIME_STRONG` -/
def strongMode (flags : BitVec 32) : Bool :=
  flags &&& OBJECT_LIFETIME_MASK == OBJECT_LIFETIME_STRONG

/-- `RefBase_weakref_impl_ctor` -/
def WeakrefImpl.ctor : WeakrefImpl := ⟨INITIAL_STRONG_VALUE, 0, OBJECT_LIFETIME_STRONG⟩

/-- `RefBase_extendObjectLifetime` -/
def WeakrefImpl.extendObjectLifetime (r : WeakrefImpl) (mode : BitVec 32) : WeakrefImpl :=
  { r with mFlags := r.mFlags ||| mode }

/-- An object in a state `σ`: where its counts are and its virtual functions. -/
structure RefBase (σ : Type) where
  refs : σ → WeakrefImpl
  putRefs : WeakrefImpl → σ → σ
  refs_put : ∀ r s, refs (putRefs r s) = r
  put_put : ∀ r r' s, putRefs r (putRefs r' s) = putRefs r s
  put_refs : ∀ s, putRefs (refs s) s = s
  onFirstRef : Prog σ Fault Unit
  onLastStrongRef : Prog σ Fault Unit
  onIncStrongAttempted : Prog σ Fault Bool
  onLastWeakRef : Prog σ Fault Unit

namespace RefBase

/-- An object that is nothing but its counts. -/
def bare : RefBase WeakrefImpl where
  refs := id
  putRefs := fun r _ => r
  refs_put := fun _ _ => rfl
  put_put := fun _ _ _ => rfl
  put_refs := fun _ => rfl
  onFirstRef := pure ()
  onLastStrongRef := pure ()
  onIncStrongAttempted := pure true
  onLastWeakRef := pure ()

variable {σ : Type} (o : RefBase σ)

/-- Reads the counts and the flags. -/
def load : Prog σ Fault WeakrefImpl := fun s => .ok (o.refs s, s)

/-- `atomic_fetch_add` on `mStrong`. -/
def fetchAddStrong (d : BitVec 32) : Prog σ Fault (BitVec 32) := fun s =>
  .ok ((o.refs s).mStrong, o.putRefs { o.refs s with mStrong := (o.refs s).mStrong + d } s)

/-- `atomic_fetch_sub` on `mStrong`. -/
def fetchSubStrong (d : BitVec 32) : Prog σ Fault (BitVec 32) := fun s =>
  .ok ((o.refs s).mStrong, o.putRefs { o.refs s with mStrong := (o.refs s).mStrong - d } s)

/-- `atomic_fetch_add` on `mWeak`. -/
def fetchAddWeak (d : BitVec 32) : Prog σ Fault (BitVec 32) := fun s =>
  .ok ((o.refs s).mWeak, o.putRefs { o.refs s with mWeak := (o.refs s).mWeak + d } s)

/-- `atomic_fetch_sub` on `mWeak`. -/
def fetchSubWeak (d : BitVec 32) : Prog σ Fault (BitVec 32) := fun s =>
  .ok ((o.refs s).mWeak, o.putRefs { o.refs s with mWeak := (o.refs s).mWeak - d } s)

/-- `RefBase_delete`. It only logs: the body that would free the object is commented out. -/
def delete : Prog σ Fault Unit := pure ()

/-- `RefBase_weakref_impl_delete`. It only logs, as `delete` does. -/
def deleteImpl : Prog σ Fault Unit := pure ()

/-! ## Weak references -/

/-- `RefBase_weakref_incWeak` -/
def incWeak : Prog σ Fault Unit := do
  let c ← o.fetchAddWeak 1
  if c.toInt < 0 then fault (.logFatal "incWeak called after last weak ref") else pure ()

/-- `RefBase_weakref_incWeakRequireWeak` -/
def incWeakRequireWeak : Prog σ Fault Unit := do
  let c ← o.fetchAddWeak 1
  if c.toInt ≤ 0 then fault (.logFatal "incWeakRequireWeak called, no weak refs") else pure ()

/-- `RefBase_weakref_decWeak` -/
def decWeak : Prog σ Fault Unit := do
  let c ← o.fetchSubWeak 1
  if badWeak c = true then fault (.logFatal "decWeak called too many times")
  else if c ≠ 1 then pure ()
  else do
    let r ← o.load
    if strongMode r.mFlags = true then
      if r.mStrong = INITIAL_STRONG_VALUE then pure () else deleteImpl
    else do
      o.onLastWeakRef
      delete

/-- `RefBase_weakref_attemptIncWeak` -/
def attemptIncWeak : Prog σ Fault Bool := do
  let r ← o.load
  if r.mWeak.toInt < 0 then fault (.logFatal "attemptIncWeak called after underflow")
  else if 0 < r.mWeak.toInt then do
    let _ ← o.fetchAddWeak 1
    pure true
  else pure false

/-! ## Strong references -/

/-- `RefBase_incStrong` -/
def incStrong : Prog σ Fault Unit := do
  o.incWeak
  let c ← o.fetchAddStrong 1
  if c.toInt ≤ 0 then fault (.logFatal "incStrong() called after last strong ref")
  else if c ≠ INITIAL_STRONG_VALUE then pure ()
  else do
    let old ← o.fetchSubStrong INITIAL_STRONG_VALUE
    if old.toInt ≤ INITIAL_STRONG_VALUE.toInt then fault (.logFatal "too small")
    else o.onFirstRef

/-- `RefBase_incStrongRequireStrong` -/
def incStrongRequireStrong : Prog σ Fault Unit := do
  o.incWeak
  let c ← o.fetchAddStrong 1
  if c.toInt ≤ 0 ∨ c = INITIAL_STRONG_VALUE then
    fault (.logFatal "incStrongRequireStrong() called, not already owned")
  else pure ()

/-- `RefBase_decStrong` -/
def decStrong : Prog σ Fault Unit := do
  let c ← o.fetchSubStrong 1
  if badStrong c = true then fault (.logFatal "decStrong() called too many times")
  else if c = 1 then do
    o.onLastStrongRef
    let r ← o.load
    if strongMode r.mFlags = true then do
      delete
      o.decWeak
    else o.decWeak
  else o.decWeak

/-- `RefBase_forceIncStrong`. The case of `INITIAL_STRONG_VALUE` falls through. -/
def forceIncStrong : Prog σ Fault Unit := do
  o.incWeak
  let c ← o.fetchAddStrong 1
  if c.toInt < 0 then fault (.logFatal "forceIncStrong called after ref count underflow")
  else if c = INITIAL_STRONG_VALUE then do
    let _ ← o.fetchSubStrong INITIAL_STRONG_VALUE
    o.onFirstRef
  else if c = 0 then o.onFirstRef
  else pure ()

/-- The end of `attemptIncStrong`: the first reference removes the initial value. -/
def finishAttempt (curCount : BitVec 32) : Prog σ Fault Bool := do
  if curCount = INITIAL_STRONG_VALUE then do
    let _ ← o.fetchSubStrong INITIAL_STRONG_VALUE
    pure true
  else pure true

/-- `RefBase_weakref_attemptIncStrong` -/
def attemptIncStrong : Prog σ Fault Bool := do
  o.incWeak
  let r ← o.load
  let curCount := r.mStrong
  if curCount.toInt < 0 then fault (.logFatal "attemptIncStrong called after underflow")
  else if 0 < curCount.toInt ∧ curCount ≠ INITIAL_STRONG_VALUE then do
    let _ ← o.fetchAddStrong 1
    o.finishAttempt curCount
  else if strongMode r.mFlags = true then
    if curCount.toInt ≤ 0 then do
      o.decWeak
      pure false
    else do
      let _ ← o.fetchAddStrong 1
      o.finishAttempt curCount
  else do
    let ok ← o.onIncStrongAttempted
    if ok = true then do
      let c ← o.fetchAddStrong 1
      if c ≠ 0 ∧ c ≠ INITIAL_STRONG_VALUE then do
        o.onLastStrongRef
        o.finishAttempt c
      else o.finishAttempt c
    else do
      o.decWeak
      pure false

/-- `RefBase_createWeak` -/
def createWeak : Prog σ Fault Unit := o.incWeak

/-- `RefBase_dtor` -/
def dtor : Prog σ Fault Unit := do
  let r ← o.load
  if r.mFlags &&& OBJECT_LIFETIME_MASK = OBJECT_LIFETIME_WEAK then
    if r.mWeak = 0 then deleteImpl else pure ()
  else if r.mStrong = INITIAL_STRONG_VALUE then pure ()
  else if r.mStrong ≠ 0 then fault (.logFatal "deleted. Double owned?")
  else pure ()

end RefBase

end system_binder
