-- The proxies that a uid holds. A map keeps a count for each uid, with a flag in its highest bit,
-- and every change of the count is a put, which leaves an old value where it is.
import SystemBinder.HashMapErase

open prog finite_map

namespace system_binder

/-- `BpBinder_global`, with the uids that `sLimitCallback` was called with. -/
structure BpBinderGlobal where
  sCountByUidEnabled : Bool
  sBinderProxyCountHighWatermark : BitVec 32
  sBinderProxyCountLowWatermark : BitVec 32
  sBinderProxyThrottleCreate : Bool
  sTrackingMap : MapState
  sLastLimitCallbackMap : MapState
  sLimitCallback : Bool
  called : List (BitVec 32)

/-- `BpBinder_global_ctor`. Each map has an allocator of its own. -/
def BpBinderGlobal.ctor (memory memory' : Nat → Bool) : BpBinderGlobal where
  sCountByUidEnabled := false
  sBinderProxyCountHighWatermark := 2500
  sBinderProxyCountLowWatermark := 2000
  sBinderProxyThrottleCreate := false
  sTrackingMap := ⟨HashMapBase.ctor, memory, 0⟩
  sLastLimitCallbackMap := ⟨HashMapBase.ctor, memory', 0⟩
  sLimitCallback := false
  called := []

namespace BpBinder

/-- A flag denoting that the limit has been reached -/
def LIMIT_REACHED_MASK : BitVec 32 := 0x80000000

/-- A mask of the remaining bits for the count value -/
def COUNTING_VALUE_MASK : BitVec 32 := 0x7FFFFFFF

/-! ## Reaching the state -/

def thisGlobal : Prog BpBinderGlobal Fault BpBinderGlobal := fun global => .ok (global, global)

def onTracking {α : Type} (m : Prog MapState Fault α) : Prog BpBinderGlobal Fault α :=
  zoom BpBinderGlobal.sTrackingMap (fun map global => { global with sTrackingMap := map }) m

def onLastLimit {α : Type} (m : Prog MapState Fault α) : Prog BpBinderGlobal Fault α :=
  zoom BpBinderGlobal.sLastLimitCallbackMap
    (fun map global => { global with sLastLimitCallbackMap := map }) m

/-- A uid is an `int32_t`, and a key a `long`. -/
def keyOf (uid : BitVec 32) : Long := uid.signExtend 64

/-- `sTrackingMap.get` into a `uint32_t` -/
def getTracked (uid : BitVec 32) : Prog BpBinderGlobal Fault (BitVec 32) := do
  let value ← onTracking (HashMap.get (keyOf uid))
  pure (value.setWidth 32)

/-- `sTrackingMap.put` of a `uint32_t` -/
def putTracked (uid value : BitVec 32) : Prog BpBinderGlobal Fault Unit := do
  let _ ← onTracking (HashMap.put (keyOf uid) (value.setWidth 64))
  pure ()

/-- `sTrackingMap.erase` -/
def eraseTracked (uid : BitVec 32) : Prog BpBinderGlobal Fault Unit := do
  let _ ← onTracking (HashMap.erase (keyOf uid))
  pure ()

/-- `sLimitCallback(trackedUid)`, where it is not NULL -/
def limitCallback (trackedUid : BitVec 32) : Prog BpBinderGlobal Fault Unit := fun global =>
  .ok ((), if global.sLimitCallback
    then { global with called := global.called ++ [trackedUid] } else global)

/-! ## Creating and destroying a proxy -/

/-- `BpBinder_create` where the flag is set: whether it goes on. -/
def stillLimited (trackedUid trackedValue : BitVec 32) : Prog BpBinderGlobal Fault Bool := do
  let global ← thisGlobal
  if global.sBinderProxyThrottleCreate then pure false
  else do
    let count := trackedValue &&& COUNTING_VALUE_MASK
    let value ← onLastLimit (HashMap.get (keyOf trackedUid))
    let lastLimitCallbackAt : BitVec 32 := value.setWidth 32
    if count > lastLimitCallbackAt ∧
        count - lastLimitCallbackAt > global.sBinderProxyCountHighWatermark then do
      limitCallback trackedUid
      let _ ← onLastLimit (HashMap.put (keyOf trackedUid) (count.setWidth 64))
      pure true
    else pure true

/-- `BpBinder_create` where the count is at the high watermark: whether it goes on. -/
def limitReached (trackedUid trackedValue : BitVec 32) : Prog BpBinderGlobal Fault Bool := do
  let tempValue ← getTracked trackedUid
  putTracked trackedUid (tempValue ||| LIMIT_REACHED_MASK)
  limitCallback trackedUid
  let _ ← onLastLimit
    (HashMap.put (keyOf trackedUid) ((trackedValue &&& COUNTING_VALUE_MASK).setWidth 64))
  let global ← thisGlobal
  pure !global.sBinderProxyThrottleCreate

/-- `BpBinder_create` for a calling uid: the `mTrackedUid` of the proxy, and none for NULL. -/
def create (callingUid : BitVec 32) : Prog BpBinderGlobal Fault (Option (BitVec 32)) := do
  let global ← thisGlobal
  if global.sCountByUidEnabled then do
    let trackedValue ← getTracked callingUid
    let goesOn ← if trackedValue &&& LIMIT_REACHED_MASK ≠ 0 then
        stillLimited callingUid trackedValue
      else if trackedValue &&& COUNTING_VALUE_MASK ≥ global.sBinderProxyCountHighWatermark then
        limitReached callingUid trackedValue
      else pure true
    if goesOn then do
      let tempValue ← getTracked callingUid
      putTracked callingUid (tempValue + 1)
      pure (some callingUid)
    else pure none
  else pure (some (-1))

/-- `BpBinder_dtor` where the flag is set and the count is at the low watermark. -/
def limitReset (mTrackedUid : BitVec 32) : Prog BpBinderGlobal Fault Unit := do
  let tempValue ← getTracked mTrackedUid
  putTracked mTrackedUid (tempValue &&& ~~~LIMIT_REACHED_MASK)
  let _ ← onLastLimit (HashMap.erase (keyOf mTrackedUid))
  pure ()

/-- `BpBinder_dtor` of a proxy. A count of 0 is only logged. -/
def dtor (mTrackedUid : BitVec 32) : Prog BpBinderGlobal Fault Unit := do
  if mTrackedUid.toInt ≥ 0 then do
    let trackedValue ← getTracked mTrackedUid
    if trackedValue &&& COUNTING_VALUE_MASK = 0 then pure ()
    else do
      let global ← thisGlobal
      if trackedValue &&& LIMIT_REACHED_MASK ≠ 0 ∧
          trackedValue &&& COUNTING_VALUE_MASK ≤ global.sBinderProxyCountLowWatermark then
        limitReset mTrackedUid
      let tempValue ← getTracked mTrackedUid
      if tempValue - 1 = 0 then eraseTracked mTrackedUid
      else putTracked mTrackedUid (tempValue - 1)
  else pure ()

/-! ## Runs -/

/-- The global data, and the `mTrackedUid` of each proxy that is alive, in the order of their
creation. -/
structure Proxies where
  global : BpBinderGlobal
  live : List (BitVec 32)

def onGlobal {α : Type} (m : Prog BpBinderGlobal Fault α) : Prog Proxies Fault α :=
  zoom Proxies.global (fun global this => { this with global }) m

/-- `destroy i` destroys the proxy at the place `i` of those that are alive. -/
inductive ProxyCall
  | create (callingUid : BitVec 32)
  | destroy (i : Nat)
deriving DecidableEq, Repr

/-- One call: whether it returns a proxy. -/
def runCall : ProxyCall → Prog Proxies Fault Bool
  | .create callingUid => do
    match ← onGlobal (create callingUid) with
    | some mTrackedUid => do
      modify fun this => { this with live := this.live ++ [mTrackedUid] }
      pure true
    | none => pure false
  | .destroy i => do
    let this ← get
    match this.live[i]? with
    | some mTrackedUid => do
      onGlobal (dtor mTrackedUid)
      modify fun this => { this with live := this.live.eraseIdx i }
      pure false
    | none => pure false

/-! ## What the map is for -/

/-- The map has this count for the uid. -/
def CountIs (uid : BitVec 32) (n : Nat) (global : BpBinderGlobal) : Prop :=
  ∃ value, getTracked uid global = .ok (value, global) ∧ (value &&& COUNTING_VALUE_MASK).toNat = n

/-- The map has this flag for the uid. -/
def FlagIs (uid : BitVec 32) (flag : Bool) (global : BpBinderGlobal) : Prop :=
  ∃ value, getTracked uid global = .ok (value, global) ∧
    (value &&& LIMIT_REACHED_MASK != 0) = flag

/-- Each uid is counted as often as it has proxies. -/
def CountsLive (this : Proxies) : Prop := ∀ uid, CountIs uid (this.live.count uid) this.global

/-- The call keeps the counts; a create sets the flag of a count at the high watermark, and returns
NULL where creates are throttled and the flag stands; a destruction clears the flag of a count at
the low watermark. -/
def Right (call : ProxyCall) (this : Proxies) (r : Except Fault (Bool × Proxies)) : Prop :=
  ∃ created this', r = .ok (created, this') ∧ CountsLive this' ∧
    match call with
    | .create callingUid =>
      (∀ n flag, CountIs callingUid n this.global → FlagIs callingUid flag this.global →
        FlagIs callingUid
          (flag || decide (this.global.sBinderProxyCountHighWatermark.toNat ≤ n)) this'.global) ∧
      (created = false ↔
        this.global.sBinderProxyThrottleCreate = true ∧ FlagIs callingUid true this'.global)
    | .destroy i => ∀ uid n flag, this.live[i]? = some uid → CountIs uid n this.global →
      FlagIs uid flag this.global →
        FlagIs uid
          (flag && !decide (n ≤ this.global.sBinderProxyCountLowWatermark.toNat)) this'.global

/-- Where the put of a call finds no old value: a create for a uid without proxies, which is not
stopped at a watermark of 0 by the flag alone, and a destruction of what is counted. -/
def Fits (call : ProxyCall) (this : Proxies) : Prop :=
  match call with
  | .create callingUid => callingUid ∉ this.live ∧
    (0 < this.global.sBinderProxyCountHighWatermark ∨
      this.global.sBinderProxyThrottleCreate = true) ∧
    HashMapBase.Plenty this.global.sTrackingMap
  | .destroy i => ∀ uid, this.live[i]? = some uid → 0 ≤ uid.toInt

/-! ## The values of the map -/

/-- The tracking map has these values for the uids. -/
structure Tracked (values : BitVec 32 → Option (BitVec 32)) (global : BpBinderGlobal) : Prop where
  tracking : ∃ p, HashMapBase.Represents HashMapBase.ctor.hash HashMapBase.ctor.equal p
      global.sTrackingMap.map ∧
    ∀ uid, HashMap.valueAt HashMapBase.ctor.equal p (keyOf uid) =
      (values uid).map (BitVec.setWidth 64)
  callbacks : HashMap.Represented HashMapBase.ctor.hash HashMapBase.ctor.equal
    global.sLastLimitCallbackMap

/-- The settings stay. -/
structure SameSettings (global global' : BpBinderGlobal) : Prop where
  enabled : global'.sCountByUidEnabled = global.sCountByUidEnabled
  high : global'.sBinderProxyCountHighWatermark = global.sBinderProxyCountHighWatermark
  throttle : global'.sBinderProxyThrottleCreate = global.sBinderProxyThrottleCreate

variable {values : BitVec 32 → Option (BitVec 32)} {global : BpBinderGlobal}
  {uid value : BitVec 32} {E : Fault → Prop} {this : Proxies}

theorem SameSettings.refl (global : BpBinderGlobal) : SameSettings global global :=
  ⟨rfl, rfl, rfl⟩

theorem keyOf_inj {a b : BitVec 32} (h : keyOf a = keyOf b) : a = b := by
  apply BitVec.eq_of_toInt_eq
  have hint := congrArg BitVec.toInt h
  unfold keyOf at hint
  rwa [BitVec.toInt_signExtend_of_le (by decide), BitVec.toInt_signExtend_of_le (by decide)] at hint

theorem valueAt_cons {p : List HashMapEntry} {key v : Long} (other : Long) :
    HashMap.valueAt HashMapBase.ctor.equal (⟨key, v⟩ :: p) other =
      if key = other then some v else HashMap.valueAt HashMapBase.ctor.equal p other := by
  unfold HashMap.valueAt lookup
  rw [List.find?_cons]
  by_cases h : key = other
  · simp [HashMapBase.ctor, h]
  · have hne : (key == other) = false := by simpa using h
    simp [HashMapBase.ctor, h, hne]

theorem getTracked.spec (h : Tracked values global) :
    wp (getTracked uid) (fun value global' => global' = global ∧ value = (values uid).getD 0) E
      global := by
  obtain ⟨p, r, hvalues⟩ := h.tracking
  unfold getTracked onTracking
  rw [wp_bind, wp_zoom]
  refine wp_imp (HashMap.get.spec r HashMapBase.ctor_laws) ?_
  rintro v s' ⟨rfl, rfl⟩
  rw [hvalues]
  refine ⟨rfl, ?_⟩
  cases values uid with
  | none => rfl
  | some value => simp

/-- A put of a uid that has no value stores. -/
theorem putTracked.spec (h : Tracked values global) (hfree : values uid = none)
    (hplenty : HashMapBase.Plenty global.sTrackingMap) :
    wp (putTracked uid value) (fun _ global' =>
      Tracked (Function.update values uid (some value)) global' ∧
        SameSettings global global') E global := by
  obtain ⟨p, r, hvalues⟩ := h.tracking
  have hnone : HashMap.valueAt HashMapBase.ctor.equal p (keyOf uid) = none := by
    rw [hvalues, hfree]
    rfl
  unfold putTracked onTracking
  rw [wp_bind, wp_zoom]
  refine wp_imp (HashMap.put.spec r HashMapBase.ctor_laws) ?_
  rintro status s' ⟨q, r', -, hstored⟩
  rcases hstored hnone with ⟨-, rfl⟩ | ⟨-, -, hno⟩
  · refine ⟨⟨⟨_, r', fun other => ?_⟩, h.callbacks⟩, rfl, rfl, rfl⟩
    rw [valueAt_cons, hvalues]
    by_cases hsame : uid = other
    · subst hsame
      simp
    · have hkeys : keyOf uid ≠ keyOf other := fun hkeys => hsame (keyOf_inj hkeys)
      rw [if_neg hkeys, Function.update_of_ne (Ne.symm hsame)]
  · exact absurd hplenty hno

theorem eraseTracked.spec (h : Tracked values global) :
    wp (eraseTracked uid) (fun _ global' =>
      Tracked (Function.update values uid none) global' ∧ SameSettings global global') E
      global := by
  obtain ⟨p, r, hvalues⟩ := h.tracking
  have hother : HashMap.valueAt HashMapBase.ctor.equal p (keyOf uid) ≠ some HashMap.notFound := by
    rw [hvalues]
    cases values uid with
    | none => simp
    | some value =>
      intro hsame
      have hbits : (value.setWidth 64 : Long) = HashMap.notFound := Option.some.inj hsame
      have hlt := value.isLt
      have hnat := congrArg BitVec.toNat hbits
      simp [HashMap.notFound, STATUS_NAME_NOT_FOUND] at hnat
      omega
  unfold eraseTracked onTracking
  rw [wp_bind, wp_zoom]
  refine wp_imp (HashMap.erase.spec r HashMapBase.ctor_laws) ?_
  intro status s' hpost
  rw [if_neg hother] at hpost
  refine ⟨⟨⟨_, hpost.2, fun other => ?_⟩, h.callbacks⟩, rfl, rfl, rfl⟩
  rw [HashMap.valueAt_erase HashMapBase.ctor_laws, hvalues]
  by_cases hsame : uid = other
  · subst hsame
    simp [HashMapBase.ctor]
  · have hkeys : keyOf uid ≠ keyOf other := fun hkeys => hsame (keyOf_inj hkeys)
    rw [if_neg (by simpa [HashMapBase.ctor] using hkeys), Function.update_of_ne (Ne.symm hsame)]

theorem SameSettings.trans {a b c : BpBinderGlobal} (h : SameSettings a b) (h' : SameSettings b c) :
    SameSettings a c :=
  ⟨h'.enabled.trans h.enabled, h'.high.trans h.high, h'.throttle.trans h.throttle⟩

theorem limitCallback.spec (h : Tracked values global) :
    wp (limitCallback uid) (fun _ global' =>
      Tracked values global' ∧ SameSettings global global') E global := by
  unfold wp limitCallback
  dsimp only
  split
  · exact ⟨⟨h.tracking, h.callbacks⟩, rfl, rfl, rfl⟩
  · exact ⟨h, .refl _⟩

theorem putLastLimit.spec {key v : Long} (h : Tracked values global) :
    wp (onLastLimit (HashMap.put key v)) (fun _ global' =>
      Tracked values global' ∧ SameSettings global global') E global := by
  obtain ⟨q, r⟩ := h.callbacks
  unfold onLastLimit
  rw [wp_zoom]
  refine wp_imp (HashMap.put.spec r HashMapBase.ctor_laws) ?_
  rintro status s' ⟨q', r', -⟩
  exact ⟨⟨h.tracking, q', r'⟩, rfl, rfl, rfl⟩

/-- A create for a uid without a value counts the first proxy. -/
theorem create.spec_first (h : Tracked values global) (henabled : global.sCountByUidEnabled = true)
    (hfree : values uid = none) (hhigh : 0 < global.sBinderProxyCountHighWatermark)
    (hplenty : HashMapBase.Plenty global.sTrackingMap) :
    wp (create uid) (fun created global' => created = some uid ∧
      Tracked (Function.update values uid (some 1)) global' ∧
        SameSettings global global') E global := by
  have hbelow : ¬(0 : BitVec 32) &&& COUNTING_VALUE_MASK ≥ global.sBinderProxyCountHighWatermark := by
    simpa [BitVec.pos_iff_ne_zero] using hhigh
  unfold create
  rw [wp_bind]
  show wp (if global.sCountByUidEnabled = true then _ else _) _ _ global
  rw [if_pos henabled, wp_bind]
  refine wp_imp (getTracked.spec h) ?_
  rintro _ global' ⟨rfl, rfl⟩
  rw [hfree]
  dsimp only [Option.getD_none]
  rw [if_neg (by decide), if_neg hbelow, wp_bind, wp_pure, if_pos rfl, wp_bind]
  refine wp_imp (getTracked.spec h) ?_
  rintro _ global'' ⟨rfl, rfl⟩
  rw [hfree, wp_bind]
  refine wp_imp (putTracked.spec h hfree hplenty) ?_
  rintro _ global' ⟨h', hsame⟩
  exact ⟨rfl, h', hsame⟩

/-- Where creates are throttled, a create at a watermark of 0 sets the flag and returns NULL. -/
theorem create.spec_stopped (h : Tracked values global)
    (henabled : global.sCountByUidEnabled = true) (hfree : values uid = none)
    (hhigh : global.sBinderProxyCountHighWatermark = 0)
    (hthrottle : global.sBinderProxyThrottleCreate = true)
    (hplenty : HashMapBase.Plenty global.sTrackingMap) :
    wp (create uid) (fun created global' => created = none ∧
      Tracked (Function.update values uid (some LIMIT_REACHED_MASK)) global' ∧
        SameSettings global global') E global := by
  unfold create limitReached
  rw [wp_bind]
  show wp (if global.sCountByUidEnabled = true then _ else _) _ _ global
  rw [if_pos henabled, wp_bind]
  refine wp_imp (getTracked.spec h) ?_
  rintro _ global' ⟨rfl, rfl⟩
  rw [hfree, hhigh]
  dsimp only [Option.getD_none]
  rw [if_neg (by decide), if_pos (by decide), wp_bind, wp_bind]
  refine wp_imp (getTracked.spec h) ?_
  rintro _ global'' ⟨rfl, rfl⟩
  rw [hfree, wp_bind]
  refine wp_imp (putTracked.spec h hfree hplenty) ?_
  rintro _ g₁ ⟨h₁, hsame₁⟩
  rw [wp_bind]
  refine wp_imp (limitCallback.spec h₁) ?_
  rintro _ g₂ ⟨h₂, hsame₂⟩
  rw [wp_bind]
  refine wp_imp (putLastLimit.spec h₂) ?_
  rintro _ g₃ ⟨h₃, hsame₃⟩
  have hsame := (hsame₁.trans hsame₂).trans hsame₃
  rw [wp_bind]
  show wp (if (!g₃.sBinderProxyThrottleCreate) = true then _ else _) _ _ g₃
  rw [hsame.throttle, hthrottle, if_neg (by decide)]
  exact ⟨rfl, h₃, hsame⟩

/-- Where creates are throttled, a create returns NULL as long as the flag stands. -/
theorem create.spec_limited (h : Tracked values global)
    (henabled : global.sCountByUidEnabled = true)
    (hlimited : values uid = some LIMIT_REACHED_MASK)
    (hthrottle : global.sBinderProxyThrottleCreate = true) :
    wp (create uid) (fun created global' => created = none ∧ global' = global) E global := by
  unfold create stillLimited
  rw [wp_bind]
  show wp (if global.sCountByUidEnabled = true then _ else _) _ _ global
  rw [if_pos henabled, wp_bind]
  refine wp_imp (getTracked.spec h) ?_
  rintro _ global' ⟨rfl, rfl⟩
  rw [hlimited]
  dsimp only [Option.getD_some]
  rw [if_pos (by decide), wp_bind, wp_bind]
  show wp (if global'.sBinderProxyThrottleCreate = true then _ else _) _ _ global'
  rw [if_pos hthrottle]
  exact ⟨rfl, rfl⟩

/-- The destruction of the only proxy of a uid forgets the uid. -/
theorem dtor.spec (h : Tracked values global) (hone : values uid = some 1) (hsign : 0 ≤ uid.toInt) :
    wp (dtor uid) (fun _ global' => Tracked (Function.update values uid none) global' ∧
      SameSettings global global') E global := by
  unfold dtor
  rw [if_pos hsign, wp_bind]
  refine wp_imp (getTracked.spec h) ?_
  rintro _ global' ⟨rfl, rfl⟩
  rw [hone]
  dsimp only [Option.getD_some]
  have hnoflag : ¬((1 : BitVec 32) &&& LIMIT_REACHED_MASK ≠ 0 ∧
      (1 : BitVec 32) &&& COUNTING_VALUE_MASK ≤ global'.sBinderProxyCountLowWatermark) :=
    fun hflag => hflag.1 (by decide)
  rw [if_neg (by decide), wp_bind]
  show wp (if _ then _ else _) _ _ global'
  rw [if_neg hnoflag, wp_bind]
  refine wp_imp (getTracked.spec h) ?_
  rintro _ global'' ⟨rfl, rfl⟩
  rw [hone, Option.getD_some, if_pos (by decide)]
  exact eraseTracked.spec h

/-! ## What the fitting calls keep -/

/-- What may stand for a uid with `n` proxies, at this high watermark. -/
inductive Slot (high : BitVec 32) : Option (BitVec 32) → Nat → Prop
  | nothing : Slot high none 0
  | one : Slot high (some 1) 1
  | limited (h : high = 0) : Slot high (some LIMIT_REACHED_MASK) 0

structure Good (this : Proxies) : Prop where
  enabled : this.global.sCountByUidEnabled = true
  slots : ∃ values, Tracked values this.global ∧
    ∀ uid, Slot this.global.sBinderProxyCountHighWatermark (values uid) (this.live.count uid)

theorem getTracked_eq (h : Tracked values global) (uid : BitVec 32) :
    getTracked uid global = .ok ((values uid).getD 0, global) := by
  obtain ⟨value, global', hrun, rfl, rfl⟩ : ∃ value global', getTracked uid global =
      .ok (value, global') ∧ global' = global ∧ value = (values uid).getD 0 :=
    wp_never_iff.mp (getTracked.spec h)
  exact hrun

theorem countIs_iff (h : Tracked values global) {n : Nat} :
    CountIs uid n global ↔ ((values uid).getD 0 &&& COUNTING_VALUE_MASK).toNat = n := by
  unfold CountIs
  rw [getTracked_eq h]
  simp

theorem flagIs_iff (h : Tracked values global) {flag : Bool} :
    FlagIs uid flag global ↔ ((values uid).getD 0 &&& LIMIT_REACHED_MASK != 0) = flag := by
  unfold FlagIs
  rw [getTracked_eq h]
  simp

theorem Slot.count {high : BitVec 32} {v : Option (BitVec 32)} {n : Nat} (h : Slot high v n) :
    (v.getD 0 &&& COUNTING_VALUE_MASK).toNat = n := by
  cases h <;> rfl

theorem Good.countsLive (h : Good this) : CountsLive this := by
  intro uid
  obtain ⟨values, htracked, hslots⟩ := h.slots
  exact (countIs_iff htracked).mpr (hslots uid).count

/-- A value for one uid, with its proxies counted again, leaves the others as they are. -/
theorem Good.put {v : Option (BitVec 32)} {global : BpBinderGlobal} {live : List (BitVec 32)}
    (henabled : this.global.sCountByUidEnabled = true)
    (hslots : ∀ uid, Slot this.global.sBinderProxyCountHighWatermark (values uid)
      (this.live.count uid))
    (h' : Tracked (Function.update values uid v) global) (hsame : SameSettings this.global global)
    (hslot : Slot this.global.sBinderProxyCountHighWatermark v (live.count uid))
    (hothers : ∀ other, other ≠ uid → live.count other = this.live.count other) :
    Good ⟨global, live⟩ := by
  refine ⟨hsame.enabled.trans henabled, _, h', fun other => ?_⟩
  dsimp only
  rw [hsame.high]
  by_cases hother : other = uid
  · subst hother
    rwa [Function.update_self]
  · rw [Function.update_of_ne hother, hothers other hother]
    exact hslots other

theorem count_eraseIdx {l : List (BitVec 32)} {i : Nat} (h : l[i]? = some uid)
    (other : BitVec 32) : l.count other = (l.eraseIdx i).count other + if uid = other then 1 else 0 := by
  obtain ⟨hlt, rfl⟩ := List.getElem?_eq_some_iff.mp h
  rw [← (List.getElem_cons_eraseIdx_perm hlt).count_eq other, List.count_cons]
  simp

/-- A create that fits is right, and keeps the slots. -/
theorem create.good (h : Good this) (hfits : Fits (.create uid) this) :
    wp (runCall (.create uid)) (fun created this' => Good this' ∧
      Right (.create uid) this (.ok (created, this'))) E this := by
  obtain ⟨hnew, hlimit, hplenty⟩ := hfits
  obtain ⟨values, htracked, hslots⟩ := h.slots
  have hslot := hslots uid
  rw [List.count_eq_zero_of_not_mem hnew] at hslot
  unfold runCall onGlobal
  dsimp only
  rw [wp_bind, wp_zoom]
  generalize hvalue : values uid = v at hslot
  cases hslot with
  | nothing =>
    by_cases hhigh : 0 < this.global.sBinderProxyCountHighWatermark
    · refine wp_imp (create.spec_first htracked h.enabled hvalue hhigh hplenty) ?_
      rintro _ global' ⟨rfl, h', hsame⟩
      have hgood : Good ⟨global', this.live ++ [uid]⟩ := by
        apply Good.put h.enabled hslots h' hsame
        · rw [List.count_append, List.count_eq_zero_of_not_mem hnew, List.count_singleton_self]
          exact .one
        · intro other hother
          simp [List.count_append, Ne.symm hother]
      refine ⟨hgood, true, _, rfl, hgood.countsLive, ?_, ?_⟩
      · intro n flag hn hflag
        rw [countIs_iff htracked, hvalue] at hn
        rw [flagIs_iff htracked, hvalue] at hflag
        have hzero : n = 0 := hn.symm
        subst hzero hflag
        have hbelow : ¬this.global.sBinderProxyCountHighWatermark.toNat ≤ 0 :=
          Nat.not_le.mpr (by simpa [BitVec.lt_def] using hhigh)
        rw [flagIs_iff h', Function.update_self, decide_eq_false hbelow]
        simp [LIMIT_REACHED_MASK]
      · rw [flagIs_iff h', Function.update_self]
        simp [LIMIT_REACHED_MASK]
    · have hthrottle := hlimit.resolve_left hhigh
      have hzero : this.global.sBinderProxyCountHighWatermark = 0 := by
        simpa [BitVec.pos_iff_ne_zero] using hhigh
      refine wp_imp (create.spec_stopped htracked h.enabled hvalue hzero hthrottle hplenty) ?_
      rintro _ global' ⟨rfl, h', hsame⟩
      have hgood : Good ⟨global', this.live⟩ := by
        apply Good.put h.enabled hslots h' hsame
        · rw [List.count_eq_zero_of_not_mem hnew]
          exact .limited hzero
        · exact fun _ _ => rfl
      refine ⟨hgood, false, _, rfl, hgood.countsLive, ?_, ?_⟩
      · intro n flag hn hflag
        rw [hzero, flagIs_iff h', Function.update_self]
        simp [LIMIT_REACHED_MASK]
      · rw [flagIs_iff h', Function.update_self]
        simp [LIMIT_REACHED_MASK, hthrottle]
  | limited hzero =>
    have hthrottle := hlimit.resolve_left (by rw [hzero]; decide)
    refine wp_imp (create.spec_limited htracked h.enabled hvalue hthrottle) ?_
    rintro _ global' ⟨rfl, rfl⟩
    refine ⟨h, false, _, rfl, h.countsLive, ?_, ?_⟩
    · intro n flag hn hflag
      rw [hzero, flagIs_iff htracked, hvalue]
      simp [LIMIT_REACHED_MASK]
    · rw [flagIs_iff htracked, hvalue]
      simp [LIMIT_REACHED_MASK, hthrottle]

/-- A destruction that fits is right, and keeps the slots. -/
theorem destroy.good {i : Nat} (h : Good this) (hfits : Fits (.destroy i) this) :
    wp (runCall (.destroy i)) (fun created this' => Good this' ∧
      Right (.destroy i) this (.ok (created, this'))) E this := by
  obtain ⟨values, htracked, hslots⟩ := h.slots
  unfold runCall onGlobal
  dsimp only
  rw [wp_bind, wp_get]
  cases hlive : this.live[i]? with
  | none =>
    refine ⟨h, false, _, rfl, h.countsLive, ?_⟩
    intro uid n flag hsome
    rw [hlive] at hsome
    cases hsome
  | some uid =>
    have hcount := count_eraseIdx hlive
    have hslot := hslots uid
    rw [hcount, if_pos rfl] at hslot
    generalize hvalue : values uid = v at hslot
    generalize hn : (this.live.eraseIdx i).count uid = n at hslot
    cases hslot with
    | one =>
      dsimp only
      rw [wp_bind, wp_zoom]
      refine wp_imp (dtor.spec htracked hvalue (hfits uid hlive)) ?_
      rintro _ global' ⟨h', hsame⟩
      have hgood : Good ⟨global', this.live.eraseIdx i⟩ := by
        apply Good.put h.enabled hslots h' hsame
        · rw [hn]
          exact .nothing
        · intro other hother
          rw [hcount, if_neg (Ne.symm hother), Nat.add_zero]
      refine ⟨hgood, false, _, rfl, hgood.countsLive, ?_⟩
      intro uid' n flag hsome hcounted hflag
      rw [hlive] at hsome
      cases hsome
      rw [flagIs_iff htracked, hvalue] at hflag
      subst hflag
      rw [flagIs_iff h', Function.update_self]
      simp [LIMIT_REACHED_MASK]

theorem runCall.good {call : ProxyCall} (h : Good this) (hfits : Fits call this) :
    wp (runCall call) (fun created this' => Good this' ∧
      Right call this (.ok (created, this'))) E this := by
  cases call with
  | create callingUid => exact create.good h hfits
  | destroy i => exact destroy.good h hfits

/-- The global data of a process that counts, with these settings. -/
def counting (high low : BitVec 32) (throttle limitCallback : Bool) (memory memory' : Nat → Bool) :
    BpBinderGlobal :=
  { BpBinderGlobal.ctor memory memory' with
    sCountByUidEnabled := true
    sBinderProxyCountHighWatermark := high
    sBinderProxyCountLowWatermark := low
    sBinderProxyThrottleCreate := throttle
    sLimitCallback := limitCallback }

theorem counting_good (high low : BitVec 32) (throttle limitCallback : Bool)
    (memory memory' : Nat → Bool) :
    Good ⟨counting high low throttle limitCallback memory memory', []⟩ := by
  have hempty : HashMapBase.Represents HashMapBase.ctor.hash HashMapBase.ctor.equal []
      HashMapBase.ctor := ⟨rfl, rfl, HashMapBase.holds_of_empty rfl rfl rfl rfl, .refl _⟩
  exact ⟨rfl, fun _ => none, ⟨⟨[], hempty, fun _ => rfl⟩, [], hempty⟩, fun _ => .nothing⟩

/-- Along every run whose creates are for uids without a proxy, and whose destructions are of what
is counted, each uid is counted as often as it has proxies, and the flags and the proxies that are
refused are right. -/
theorem uids_with_one_proxy_are_counted (high low : BitVec 32) (throttle limitCallback : Bool)
    (memory memory' : Nat → Bool) (calls : List ProxyCall)
    (hfits : Allowed runCall Fits calls
      ⟨counting high low throttle limitCallback memory memory', []⟩) :
    CountsLive ⟨counting high low throttle limitCallback memory memory', []⟩ ∧
      Always runCall Right calls
        ⟨counting high low throttle limitCallback memory memory', []⟩ := by
  have hstart := counting_good high low throttle limitCallback memory memory'
  refine ⟨hstart.countsLive, always_of_inv Good ?_ ?_ hstart hfits⟩
  · intro call this h hcall
    obtain ⟨created, this', hrun, -, hright⟩ := wp_never_iff.mp (runCall.good h hcall)
    rw [hrun]
    exact hright
  · intro call this created this' h hcall hrun
    obtain ⟨created', this'', hrun', hgood, -⟩ := wp_never_iff.mp (runCall.good h hcall)
    rw [hrun] at hrun'
    cases hrun'
    exact hgood

/-- The settings of a new process, with memory enough. -/
def plain : Proxies := ⟨counting 2500 2000 false false (fun _ => true) (fun _ => true), []⟩

theorem uids_with_one_proxy_are_counted_for_two_uids :
    CountsLive plain ∧ Always runCall Right [.create 1000, .create 1001, .destroy 0] plain := by
  apply uids_with_one_proxy_are_counted
  have hplenty : HashMapBase.Plenty plain.global.sTrackingMap := ⟨fun _ => rfl, by decide⟩
  obtain ⟨s₁, s₂, hfirst, hsecond, hlive₁, hhigh, hmemory, hbits, hlive₂⟩ : ∃ s₁ s₂,
      runCall (.create 1000) plain = .ok (true, s₁) ∧ runCall (.create 1001) s₁ = .ok (true, s₂) ∧
      s₁.live = [1000] ∧ s₁.global.sBinderProxyCountHighWatermark = 2500 ∧
      s₁.global.sTrackingMap.memory = (fun _ => true) ∧ s₁.global.sTrackingMap.map.cap_bits < 60 ∧
      s₂.live = [1000, 1001] := ⟨_, _, rfl, rfl, rfl, rfl, rfl, by decide, rfl⟩
  refine ⟨⟨by decide, .inl (by decide), hplenty⟩, fun _ _ hrun => ?_⟩
  cases hfirst.symm.trans hrun
  refine ⟨⟨by rw [hlive₁]; decide, .inl (by rw [hhigh]; decide), by simp [hmemory], hbits⟩,
    fun _ _ hrun => ?_⟩
  cases hsecond.symm.trans hrun
  refine ⟨fun uid huid => ?_, fun _ _ _ => trivial⟩
  rw [hlive₂] at huid
  cases huid
  decide

/-- Of two proxies of one uid only one is counted: the second put finds a value. -/
theorem a_second_proxy_is_not_counted :
    ¬(CountsLive plain ∧ Always runCall Right [.create 1000, .create 1000] plain) := by
  obtain ⟨s₁, s₂, hfirst, hsecond, hlive, hvalue⟩ : ∃ s₁ s₂,
      runCall (.create 1000) plain = .ok (true, s₁) ∧ runCall (.create 1000) s₁ = .ok (true, s₂) ∧
      s₂.live = [1000, 1000] ∧ getTracked 1000 s₂.global = .ok (1, s₂.global) :=
    ⟨_, _, rfl, rfl, rfl, rfl⟩
  rintro ⟨-, -, hrest⟩
  obtain ⟨⟨created, s₃, hrun, hcounts, -⟩, -⟩ := hrest true s₁ hfirst
  rw [hsecond] at hrun
  cases hrun
  obtain ⟨value, hread, hcount⟩ := hcounts 1000
  rw [hvalue] at hread
  cases hread
  rw [hlive] at hcount
  exact absurd hcount (by decide)

end BpBinder

end system_binder
