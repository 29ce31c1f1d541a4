-- The attributes of a local binder. They live in an object of their own, which every setter creates
-- anew: its address is not stored, so that the getters answer as for a binder without attributes.
import SystemBinder.ObjectManager
import SystemBinder.ParcelBinders

open prog

namespace system_binder

/-- The scheduling constants of the system. -/
structure Sched where
  SCHED_FIFO : BitVec 32
  SCHED_RR : BitVec 32
  SCHED_PRIORITY_MIN : BitVec 32
  SCHED_PRIORITY_MAX : BitVec 32
  SCHED_PRIORITY_DEFAULT : BitVec 32

/-- `BBinder_Extras` -/
structure BBinderExtras where
  mObjects : ObjectManager
  mPolicy : BitVec 32
  mPriority : BitVec 32
  mRequestingSid : Bool
  mInheritRt : Bool
  mExtension : BitVec 64

/-- `BBinder`, with all the extras that were created. `mExtras` says which of them are its own,
none for NULL. `memory` and `address` are those of their object managers. -/
structure BBinder where
  mExtras : Option Nat
  mParceled : Bool
  created : List BBinderExtras
  memory : Nat → Bool
  address : Nat → Long

namespace BBinder

/-- `BBinder_ctor` -/
def ctor (memory : Nat → Bool) (address : Nat → Long) : BBinder := ⟨none, false, [], memory, address⟩

/-! ## Reaching the state -/

def thisBinder : Prog BBinder Fault BBinder := fun this => .ok (this, this)

/-- A program on the extras `e`. -/
def onExtras {α : Type} (e : Nat) (m : Prog BBinderExtras Fault α) : Prog BBinder Fault α :=
  fun this =>
    match this.created[e]? with
    | none => .error .nullPointer
    | some extras =>
      match m extras with
      | .ok (a, extras') => .ok (a, { this with created := this.created.set e extras' })
      | .error fault => .error fault

def setExtras (e : Nat) (f : BBinderExtras → BBinderExtras) : Prog BBinder Fault Unit :=
  onExtras e (modify f)

/-- Reads a field of the extras, or takes `default` where there are none. -/
def readExtras {α : Type} (default : α) (f : BBinderExtras → α) : Prog BBinder Fault α := do
  let this ← thisBinder
  match this.mExtras with
  | none => pure default
  | some e => onExtras e (do
      let extras ← get
      pure (f extras))

/-- `LOG_FATAL_IF(this->mParceled, …)` of the setter with this name. -/
def mustNotBeParceled (setter : String) : Prog BBinder Fault Unit := do
  let this ← thisBinder
  if this.mParceled = true then
    fault (.logFatal (setter ++ " should not be called after a binder object is parceled/sent to " ++
      "another process"))
  else pure ()

/-! ## The functions of a binder -/

section

variable (k : Sched)

/-- `BBinder_Extras_new` -/
def extrasNew (this : BBinder) : BBinderExtras where
  mObjects := ObjectManager.ctor this.memory this.address
  mPolicy := k.SCHED_FIFO
  mPriority := 100
  mRequestingSid := false
  mInheritRt := false
  mExtension := 0

/-- `BBinder_getOrCreateExtras`. What it creates is returned, and stored nowhere. -/
def getOrCreateExtras : Prog BBinder Fault Nat := fun this =>
  match this.mExtras with
  | some e => .ok (e, this)
  | none => .ok (this.created.length, { this with created := this.created ++ [extrasNew k this] })

/-- `BBinder_attachObject` -/
def attachObject (objectID object cleanupCookie func : Long) : Prog BBinder Fault Long := do
  let e ← getOrCreateExtras k
  onExtras e (zoom BBinderExtras.mObjects (fun objects extras => { extras with mObjects := objects })
    (ObjectManager.attach objectID object cleanupCookie func))

/-- `BBinder_findObject` -/
def findObject (objectID : Long) : Prog BBinder Fault Long := do
  let this ← thisBinder
  match this.mExtras with
  | none => pure 0
  | some e => onExtras e (zoom BBinderExtras.mObjects
      (fun objects extras => { extras with mObjects := objects }) (ObjectManager.find objectID))

/-- `BBinder_detachObject` -/
def detachObject (objectID : Long) : Prog BBinder Fault Long := do
  let this ← thisBinder
  match this.mExtras with
  | none => pure 0
  | some e => onExtras e (zoom BBinderExtras.mObjects
      (fun objects extras => { extras with mObjects := objects }) (ObjectManager.detach objectID))

/-- `BBinder_getExtension` -/
def getExtension : Prog BBinder Fault (BitVec 64) := readExtras 0 BBinderExtras.mExtension

/-- `BBinder_isRequestingSid` -/
def isRequestingSid : Prog BBinder Fault Bool := readExtras false BBinderExtras.mRequestingSid

/-- `BBinder_setRequestingSid` -/
def setRequestingSid (requestingSid : Bool) : Prog BBinder Fault Unit := do
  mustNotBeParceled "setRequestingSid()"
  let this ← thisBinder
  -- the default needs no extras
  if this.mExtras = none ∧ requestingSid = false then pure ()
  else do
    let e ← getOrCreateExtras k
    setExtras e fun extras => { extras with mRequestingSid := requestingSid }

/-- `BBinder_setMinSchedulerPolicy` -/
def setMinSchedulerPolicy (policy priority : BitVec 32) : Prog BBinder Fault Unit := do
  mustNotBeParceled "setMinSchedulerPolicy()"
  if policy = k.SCHED_RR ∨ policy = k.SCHED_FIFO then
    if priority.slt k.SCHED_PRIORITY_MIN ∨ k.SCHED_PRIORITY_MAX.slt priority then
      fault (.logFatal "Invalid priority for sched %d: %d")
    else pure ()
  else fault (.logFatal "Unrecognized scheduling policy: %d")
  let this ← thisBinder
  if this.mExtras = none ∧ policy = k.SCHED_FIFO ∧ priority = k.SCHED_PRIORITY_DEFAULT then pure ()
  else do
    let e ← getOrCreateExtras k
    setExtras e fun extras => { extras with mPolicy := policy, mPriority := priority }

/-- `BBinder_getMinSchedulerPolicy` -/
def getMinSchedulerPolicy : Prog BBinder Fault (BitVec 32) :=
  readExtras k.SCHED_FIFO BBinderExtras.mPolicy

/-- `BBinder_getMinSchedulerPriority` -/
def getMinSchedulerPriority : Prog BBinder Fault (BitVec 32) := readExtras 0 BBinderExtras.mPriority

/-- `BBinder_isInheritRt` -/
def isInheritRt : Prog BBinder Fault Bool := readExtras false BBinderExtras.mInheritRt

/-- `BBinder_setInheritRt` -/
def setInheritRt (inheritRt : Bool) : Prog BBinder Fault Unit := do
  mustNotBeParceled "setInheritRt()"
  let this ← thisBinder
  if this.mExtras = none ∧ inheritRt = false then pure ()
  else do
    let e ← getOrCreateExtras k
    setExtras e fun extras => { extras with mInheritRt := inheritRt }

/-- `BBinder_setExtension` -/
def setExtension (extension : BitVec 64) : Prog BBinder Fault Unit := do
  mustNotBeParceled "setExtension()"
  let e ← getOrCreateExtras k
  setExtras e fun extras => { extras with mExtension := extension }

/-- `BBinder_setParceled` -/
def setParceled : Prog BBinder Fault Unit := modify fun this => { this with mParceled := true }

end

/-! ## What the attributes are for -/

/-- The value that was set last for each attribute. -/
structure Attributes where
  requestingSid : Bool
  policy : BitVec 32
  priority : BitVec 32
  inheritRt : Bool
  extension : BitVec 64
  objects : List (Long × ObjectEntry)

inductive AttributeCall
  | setRequestingSid (requestingSid : Bool)
  | setMinSchedulerPolicy (policy priority : BitVec 32)
  | setInheritRt (inheritRt : Bool)
  | setExtension (extension : BitVec 64)
  | attachObject (objectID object cleanupCookie func : Long)
  | detachObject (objectID : Long)
deriving DecidableEq, Repr

/-- Before the first setter. -/
def Attributes.initial (k : Sched) : Attributes := ⟨false, k.SCHED_FIFO, 0, false, 0, []⟩

/-- After a setter: its own attribute has the new value, and no other changes. -/
def Attributes.after (a : Attributes) : AttributeCall → Attributes
  | .setRequestingSid requestingSid => { a with requestingSid := requestingSid }
  | .setMinSchedulerPolicy policy priority => { a with policy := policy, priority := priority }
  | .setInheritRt inheritRt => { a with inheritRt := inheritRt }
  | .setExtension extension => { a with extension := extension }
  | .attachObject objectID object cleanupCookie func =>
    match ObjectManager.entryOf a.objects objectID with
    | some _ => a
    | none => { a with objects := (objectID, ⟨object, cleanupCookie, func⟩) :: a.objects }
  | .detachObject objectID => { a with objects := a.objects.filter fun e => e.1 != objectID }

/-- The object under an ID, NULL where there is none. -/
def Attributes.objectOf (a : Attributes) (objectID : Long) : Long :=
  ((ObjectManager.entryOf a.objects objectID).map ObjectEntry.object).getD 0

/-- A policy and a priority that can be set. -/
def Valid (k : Sched) : AttributeCall → Prop
  | .setMinSchedulerPolicy policy priority => (policy = k.SCHED_RR ∨ policy = k.SCHED_FIFO) ∧
    ¬(priority.slt k.SCHED_PRIORITY_MIN ∨ k.SCHED_PRIORITY_MAX.slt priority)
  | _ => True

def runCall (k : Sched) : AttributeCall → Prog BBinder Fault Unit
  | .setRequestingSid requestingSid => setRequestingSid k requestingSid
  | .setMinSchedulerPolicy policy priority => setMinSchedulerPolicy k policy priority
  | .setInheritRt inheritRt => setInheritRt k inheritRt
  | .setExtension extension => setExtension k extension
  | .attachObject objectID object cleanupCookie func => do
    let _ ← attachObject k objectID object cleanupCookie func
    pure ()
  | .detachObject objectID => do
    let _ ← detachObject objectID
    pure ()

def runCalls (k : Sched) (calls : List AttributeCall) : Prog BBinder Fault Unit :=
  calls.foldlM (fun _ call => runCall k call) ()

/-- What the flattening of a binder calls, over this binder. -/
def flattenCalls (k : Sched) (x : Calls BBinder) (refs : BitVec 64) (disabled : Bool) :
    Calls BBinder :=
  { x with
    backgroundSchedulingDisabled := pure disabled
    localBinder := fun binder => pure binder
    setParceled := fun _ => setParceled
    getMinSchedulerPolicy := fun _ => getMinSchedulerPolicy k
    getMinSchedulerPriority := fun _ => getMinSchedulerPriority
    isRequestingSid := fun _ => isRequestingSid
    isInheritRt := fun _ => isInheritRt
    getWeakRefs := fun _ => pure refs }

/-- The flat object of a binder with these attributes. -/
def Attributes.flat (a : Attributes) (binder refs : BitVec 64) (disabled : Bool) :
    FlatBinderObject where
  type := BINDER_TYPE_BINDER
  flags := FLAT_BINDER_FLAG_ACCEPTS_FDS |||
    (if a.requestingSid then FLAT_BINDER_FLAG_TXN_SECURITY_CTX else 0) |||
    (if a.inheritRt then FLAT_BINDER_FLAG_INHERIT_RT else 0) |||
    (if a.policy ≠ 0 ∨ a.priority ≠ 0 then Parcel.schedPolicyMask a.policy a.priority
      else if disabled then 0 else Parcel.schedPolicyMask SCHED_NORMAL 19)
  binder := refs
  cookie := binder

/-- Every getter answers with the attribute, and a flattening uses them. -/
structure Answers (k : Sched) (a : Attributes) (this : BBinder) : Prop where
  isRequestingSid : isRequestingSid this = .ok (a.requestingSid, this)
  getMinSchedulerPolicy : getMinSchedulerPolicy k this = .ok (a.policy, this)
  getMinSchedulerPriority : getMinSchedulerPriority this = .ok (a.priority, this)
  isInheritRt : isInheritRt this = .ok (a.inheritRt, this)
  getExtension : getExtension this = .ok (a.extension, this)
  findObject : ∀ objectID, findObject objectID this = .ok (a.objectOf objectID, this)
  flatOf : ∀ (x : Calls BBinder) (binder refs : BitVec 64) (disabled : Bool)
    (obj : FlatBinderObject), binder ≠ 0 →
      ∃ this', Parcel.flatOf (flattenCalls k x refs disabled) binder obj this =
        .ok (a.flat binder refs disabled, this')

/-- Each attribute has the value that a binder without extras has. -/
structure AsAtFirst (k : Sched) (a : Attributes) : Prop where
  requestingSid : a.requestingSid = false
  policy : a.policy = k.SCHED_FIFO
  priority : a.priority = 0
  inheritRt : a.inheritRt = false
  extension : a.extension = 0
  objects : ∀ objectID, a.objectOf objectID = 0

/-! ## What the functions do -/

variable {k : Sched} {this : BBinder} {E : Fault → Prop} {a : Attributes}

/-- The binder has no extras of its own and was not parceled, and memory is to be had. -/
structure Bare (this : BBinder) : Prop where
  noExtras : this.mExtras = none
  unparceled : this.mParceled = false
  memory : ∀ n, this.memory n = true

theorem mustNotBeParceled.spec {Q : Unit → BBinder → Prop} {setter : String} (h : Bare this) :
    wp (mustNotBeParceled setter) Q E this ↔ Q () this := by
  have hno : ¬this.mParceled = true := by
    rw [h.unparceled]
    decide
  unfold mustNotBeParceled
  rw [wp_bind]
  unfold thisBinder
  show wp (if this.mParceled = true then _ else _) Q E this ↔ _
  rw [if_neg hno, wp_pure]

/-- A binder without extras of its own stays so: those that are created are not its own. -/
theorem onCreated.bare {α : Type} {m : Prog BBinderExtras Fault α} {Q : α → Prop} (h : Bare this)
    (hm : wp m (fun a _ => Q a) E (extrasNew k this)) :
    wp (do
      let e ← getOrCreateExtras k
      onExtras e m) (fun a this' => Q a ∧ Bare this') E this := by
  have hcreate : getOrCreateExtras k this =
      .ok (this.created.length, { this with created := this.created ++ [extrasNew k this] }) := by
    unfold getOrCreateExtras
    rw [h.noExtras]
  have hnew : (this.created ++ [extrasNew k this])[this.created.length]? =
      some (extrasNew k this) := by
    rw [List.getElem?_append_right (Nat.le_refl _), Nat.sub_self]
    rfl
  rw [wp_bind, wp_of_ok hcreate]
  unfold wp at hm ⊢
  unfold onExtras
  simp only [hnew]
  rcases hrun : m (extrasNew k this) with fault | ⟨a, extras'⟩
  · rw [hrun] at hm
    exact hm
  · rw [hrun] at hm
    exact ⟨hm, h.noExtras, h.unparceled, h.memory⟩

theorem setCreated.bare {f : BBinderExtras → BBinderExtras} (h : Bare this) :
    wp (do
      let e ← getOrCreateExtras k
      setExtras e f) (fun _ this' => Bare this') E this := by
  refine wp_imp (onCreated.bare (Q := fun _ => True) h ?_) fun _ _ h' => h'.2
  exact trivial

theorem runCall.bare {call : AttributeCall} (h : Bare this) (hvalid : Valid k call) :
    wp (runCall k call) (fun _ this' => Bare this') E this := by
  unfold runCall
  cases call with
  | setRequestingSid requestingSid =>
    dsimp only
    unfold setRequestingSid
    rw [wp_bind, mustNotBeParceled.spec h, wp_bind]
    show wp (if _ then _ else _) _ _ this
    rw [wp_ite]
    exact ⟨fun _ => h, fun _ => setCreated.bare h⟩
  | setMinSchedulerPolicy policy priority =>
    obtain ⟨hpolicy, hpriority⟩ := hvalid
    dsimp only
    unfold setMinSchedulerPolicy
    rw [wp_bind, mustNotBeParceled.spec h, if_pos hpolicy, if_neg hpriority]
    show wp (if _ then _ else _) _ _ this
    rw [wp_ite]
    exact ⟨fun _ => h, fun _ => setCreated.bare h⟩
  | setInheritRt inheritRt =>
    dsimp only
    unfold setInheritRt
    rw [wp_bind, mustNotBeParceled.spec h, wp_bind]
    show wp (if _ then _ else _) _ _ this
    rw [wp_ite]
    exact ⟨fun _ => h, fun _ => setCreated.bare h⟩
  | setExtension extension =>
    dsimp only
    unfold setExtension
    rw [wp_bind, mustNotBeParceled.spec h]
    exact setCreated.bare h
  | attachObject objectID object cleanupCookie func =>
    dsimp only
    unfold attachObject
    rw [wp_bind]
    refine wp_imp (onCreated.bare (Q := fun _ => True) h ?_) fun _ _ h' => h'.2
    rw [wp_zoom]
    have hlists : ObjectManager.Lists (ObjectManager.ctor this.memory this.address) [] :=
      ⟨[], ⟨rfl, rfl, HashMapBase.holds_of_empty rfl rfl rfl rfl, .refl _⟩, rfl⟩
    have hplenty : HashMapBase.Plenty (ObjectManager.ctor this.memory this.address).mObjects :=
      ⟨h.memory, by show 0 < 60; decide⟩
    exact wp_imp (ObjectManager.attach.spec hlists (by simp) hplenty) fun _ _ _ => trivial
  | detachObject objectID =>
    have hrun : detachObject objectID this = .ok (0, this) := by
      unfold detachObject
      show (match this.mExtras with
        | none => (pure 0 : Prog BBinder Fault Long)
        | some e => _) this = _
      rw [h.noExtras]
      rfl
    dsimp only
    rw [wp_bind, wp_of_ok hrun, wp_pure]
    exact h

theorem runCalls.bare {calls : List AttributeCall} (h : Bare this)
    (hvalid : ∀ call ∈ calls, Valid k call) :
    wp (runCalls k calls) (fun _ this' => Bare this') E this := by
  refine wp_foldlM (fun _ _ this' => Bare this') ?_ h
  rintro done call rest - this' rfl h'
  exact runCall.bare h' (hvalid call (by simp))

/-- What stands in the extras is not read where there are none. -/
theorem readExtras_bare {α : Type} {default : α} {f : BBinderExtras → α} (h : Bare this) :
    readExtras default f this = .ok (default, this) := by
  unfold readExtras
  show (match this.mExtras with
    | none => (pure default : Prog BBinder Fault α)
    | some e => _) this = _
  rw [h.noExtras]
  rfl

theorem findObject_bare (h : Bare this) (objectID : Long) :
    findObject objectID this = .ok (0, this) := by
  unfold findObject
  show (match this.mExtras with
    | none => (pure 0 : Prog BBinder Fault Long)
    | some e => _) this = _
  rw [h.noExtras]
  rfl

/-- The flat object of a binder without extras. -/
theorem flatOf_bare (h : Bare this) (x : Calls BBinder) {binder : BitVec 64} (refs : BitVec 64)
    (disabled : Bool) (obj : FlatBinderObject) (hbinder : binder ≠ 0) :
    ∃ this', Parcel.flatOf (flattenCalls k x refs disabled) binder obj this =
      .ok ((Attributes.initial k).flat binder refs disabled, this') := by
  obtain ⟨extras, parceled, created, memory, address⟩ := this
  cases h.noExtras
  have hlocal : Parcel.flatLocal (flattenCalls k x refs disabled) binder
      (if disabled then 0 else Parcel.schedPolicyMask SCHED_NORMAL 19) obj
      ⟨none, true, created, memory, address⟩ =
        .ok ((Attributes.initial k).flat binder refs disabled,
          ⟨none, true, created, memory, address⟩) := by
    rw [Parcel.flatLocal_eq]
    rfl
  refine ⟨⟨none, true, created, memory, address⟩, ?_⟩
  have hown : (flattenCalls k x refs disabled).localBinder binder = pure binder := rfl
  rw [← hlocal]
  unfold Parcel.flatOf
  rw [if_pos hbinder, hown, pure_bind]
  simp only [if_pos hbinder, if_neg hbinder]
  rfl

/-- The getters of a binder without extras answer with the attributes exactly where these are as at
first. -/
theorem answers_iff (h : Bare this) : Answers k a this ↔ AsAtFirst k a := by
  have hok : ∀ {α : Type} {m : Prog BBinder Fault α} {x y : α}, m this = .ok (x, this) →
      m this = .ok (y, this) → y = x := by
    intro α m x y hx hy
    rw [hx] at hy
    cases hy
    rfl
  constructor
  · intro answers
    exact ⟨hok (readExtras_bare h) answers.isRequestingSid,
      hok (readExtras_bare h) answers.getMinSchedulerPolicy,
      hok (readExtras_bare h) answers.getMinSchedulerPriority,
      hok (readExtras_bare h) answers.isInheritRt, hok (readExtras_bare h) answers.getExtension,
      fun objectID => hok (findObject_bare h objectID) (answers.findObject objectID)⟩
  · intro first
    refine ⟨?_, ?_, ?_, ?_, ?_, fun objectID => ?_, fun x binder refs disabled obj hbinder => ?_⟩
    · rw [first.requestingSid]
      exact readExtras_bare h
    · rw [first.policy]
      exact readExtras_bare h
    · rw [first.priority]
      exact readExtras_bare h
    · rw [first.inheritRt]
      exact readExtras_bare h
    · rw [first.extension]
      exact readExtras_bare h
    · rw [first.objects]
      exact findObject_bare h objectID
    · have hflat : a.flat binder refs disabled =
          (Attributes.initial k).flat binder refs disabled := by
        unfold Attributes.flat
        rw [first.requestingSid, first.policy, first.priority, first.inheritRt]
        rfl
      rw [hflat]
      exact flatOf_bare h x refs disabled obj hbinder

/-- The attributes after the calls. -/
def latest (k : Sched) (calls : List AttributeCall) : Attributes :=
  calls.foldl Attributes.after (.initial k)

/-- After any run of setters on a new binder its getters, and a flattening, have the values that
were set last exactly where all of these are those of a new binder. -/
theorem attributes_last_where_they_are_as_at_first (k : Sched) (memory : Nat → Bool)
    (address : Nat → Long) (hmemory : ∀ n, memory n = true) (calls : List AttributeCall)
    (hvalid : ∀ call ∈ calls, Valid k call) :
    ∃ u this, runCalls k calls (ctor memory address) = .ok (u, this) ∧
      (Answers k (latest k calls) this ↔ AsAtFirst k (latest k calls)) := by
  have hinitial : Bare (ctor memory address) := ⟨rfl, rfl, hmemory⟩
  obtain ⟨u, this, hrun, h⟩ := wp_never_iff.mp (runCalls.bare hinitial hvalid)
  exact ⟨u, this, hrun, answers_iff h⟩

/-- The constants of the operating system. -/
def nuttx : Sched := ⟨1, 2, 1, 255, 100⟩

/-- Every setter, with what all but the policy had at first set back. -/
def everySetter : List AttributeCall :=
  [.setRequestingSid true, .setMinSchedulerPolicy 2 50, .attachObject 7 11 12 13,
    .setExtension 0x5000, .setInheritRt true, .detachObject 7, .setExtension 0,
    .setInheritRt false, .setRequestingSid false]

/-- The policy was set, so not all attributes are those of a new binder. -/
theorem attributes_last_where_they_are_as_at_first_set_back :
    ∃ u this, runCalls nuttx everySetter (ctor (fun _ => true) fun _ => 0x7ff0) = .ok (u, this) ∧
      (Answers nuttx (latest nuttx everySetter) this ↔
        AsAtFirst nuttx (latest nuttx everySetter)) :=
  attributes_last_where_they_are_as_at_first nuttx (fun _ => true) (fun _ => 0x7ff0) (fun _ => rfl)
    everySetter (by simp [everySetter, Valid, nuttx])

/-- A binder that was asked to request the sid does not say so. -/
theorem a_requested_sid_is_lost :
    ∃ u this, runCalls nuttx [.setRequestingSid true] (ctor (fun _ => true) fun _ => 0x7ff0) =
      .ok (u, this) ∧ ¬Answers nuttx (latest nuttx [.setRequestingSid true]) this := by
  refine ⟨(), _, rfl, fun answers => ?_⟩
  have hlost := answers.isRequestingSid
  cases hlost

end BBinder

end system_binder
