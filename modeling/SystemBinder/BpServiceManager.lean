-- The proxy of the service manager: how its three requests are made, and what each of them
-- leaves on the reference count of the remote binder.
import SystemBinder.BinderCommands
import SystemBinder.RefCounts
import SystemBinder.ParcelWorld

open prog memory

namespace system_binder

/-! ## The requests -/

/-- A request on its way: its two parcels, the allocator, and the rest of the process. -/
structure Request (W : Type) where
  aidl_data : Parcel
  aidl_reply : Parcel
  heap : Heap
  world : W

namespace Request

variable {W α : Type}

/-- Runs a Parcel function on `aidl_data`. -/
def onData (m : Prog (Ctx W) Fault α) : Prog (Request W) Fault α :=
  zoom (fun r => ⟨r.aidl_data, r.heap, r.world⟩)
    (fun c r => { r with aidl_data := c.parcel, heap := c.heap, world := c.world }) m

/-- Runs a Parcel function on `aidl_reply`. -/
def onReply (m : Prog (Ctx W) Fault α) : Prog (Request W) Fault α :=
  zoom (fun r => ⟨r.aidl_reply, r.heap, r.world⟩)
    (fun c r => { r with aidl_reply := c.parcel, heap := c.heap, world := c.world }) m

/-- Runs a function of the rest of the process. -/
def onWorld (m : Prog W Fault α) : Prog (Request W) Fault α :=
  zoom Request.world (fun w r => { r with world := w }) m

end Request

/-- The default implementation of `IAIDLServiceManager`. What a call leaves in `*aidl_return`
is nothing where it is not set. -/
structure DefaultImpl (W : Type) where
  getService : BinderString → Status → Prog W Fault (Option (BitVec 64) × Status)
  checkService : BinderString → Status → Prog W Fault (Option (BitVec 64) × Status)
  addService : BinderString → BitVec 64 → Bool → BitVec 32 → Status → Prog W Fault Status

/-- `BpAIDLServiceManager`: its remote binder with the counts of it, its descriptor, and what its
requests call. -/
structure BpAIDLServiceManager (W : Type) where
  calls : Calls W
  mRemote : BitVec 64
  remoteRefs : RefBase W
  interfaceDescriptor : BinderString
  transact : BitVec 32 → Prog (Request W) Fault Int
  defaultImpl : W → Option (DefaultImpl W)

def FIRST_CALL_TRANSACTION : BitVec 32 := 1

def TRANSACTION_getService : BitVec 32 := FIRST_CALL_TRANSACTION + 0
def TRANSACTION_checkService : BitVec 32 := FIRST_CALL_TRANSACTION + 1
def TRANSACTION_addService : BitVec 32 := FIRST_CALL_TRANSACTION + 2

namespace BpAIDLServiceManager

open Request

variable {W A : Type} (p : BpAIDLServiceManager W)

/-- `BpRefBase_remoteStrong` -/
def remoteStrong : Prog W Fault (BitVec 64) := do
  if p.mRemote ≠ 0 then p.remoteRefs.incStrongRequireStrong else pure ()
  pure p.mRemote

/-- Both parcels are started, and the data gets the token and the arguments. `Parcel_markForBinder`
does nothing with the binder that it gets. -/
def writeRequest (arguments : Prog (Ctx W) Fault Int) : Prog (Request W) Fault Int := do
  onData Parcel.initState
  onReply Parcel.initState
  let _ ← onWorld p.remoteStrong
  onData do
    let status ← Parcel.writeInterfaceToken p.calls p.interfaceDescriptor
    if status ≠ STATUS_OK then pure status else arguments

/-- `ibinder->transact` on the remote binder. -/
def transactRemote (code : BitVec 32) : Prog (Request W) Fault Int :=
  if p.mRemote = 0 then fault .nullPointer else p.transact code

/-- The default implementation that stands in where the remote does not know a request. -/
def standIn (status : Int) : Prog (Request W) Fault (Option (DefaultImpl W)) := fun r =>
  .ok (if status = STATUS_UNKNOWN_TRANSACTION then p.defaultImpl r.world else none, r)

/-- What the requests have in common: `fails` goes to `aidl_error`, `asks` to the default
implementation, and `answer` reads the reply. -/
def request (code : BitVec 32) (arguments : Prog (Ctx W) Fault Int) (fails : Int → A)
    (asks : DefaultImpl W → Prog W Fault A) (answer : Prog (Ctx W) Fault A) :
    Prog (Request W) Fault A := do
  let status ← p.writeRequest arguments
  if status ≠ STATUS_OK then pure (fails status)
  else do
    let status ← p.transactRemote code
    match ← p.standIn status with
    | some impl => onWorld (asks impl)
    | none => if status ≠ STATUS_OK then pure (fails status) else onReply answer

/-- The reply of `getService` and `checkService`. -/
def readBinder (aidl_status : Status) :
    Prog (Ctx W) Fault (Option (BitVec 64) × Status) := do
  let (status, st) ← aidl_status.readFromParcel
  if status ≠ STATUS_OK then pure (none, st.setFromStatusT status)
  else do
    let (status, binder) ← Parcel.readNullableStrongBinder p.calls
    pure (binder, st.setFromStatusT status)

/-- `BpAIDLServiceManager_getService` -/
def getService (name : BinderString) (aidl_status : Status) :
    Prog (Request W) Fault (Option (BitVec 64) × Status) :=
  p.request TRANSACTION_getService (Parcel.writeString16 p.calls.toOutside (some name))
    (fun status => (none, aidl_status.setFromStatusT status))
    (fun impl => impl.getService name aidl_status) (p.readBinder aidl_status)

/-- `BpAIDLServiceManager_checkService` -/
def checkService (name : BinderString) (aidl_status : Status) :
    Prog (Request W) Fault (Option (BitVec 64) × Status) :=
  p.request TRANSACTION_checkService (Parcel.writeString16 p.calls.toOutside (some name))
    (fun status => (none, aidl_status.setFromStatusT status))
    (fun impl => impl.checkService name aidl_status) (p.readBinder aidl_status)

/-- The arguments of `addService`. -/
def writeService (name : BinderString) (service : BitVec 64) (allowIsolated : Bool)
    (dumpPriority : BitVec 32) : Prog (Ctx W) Fault Int := do
  let status ← Parcel.writeString16 p.calls.toOutside (some name)
  if status ≠ STATUS_OK then pure status
  else do
    let status ← Parcel.writeStrongBinder p.calls service
    if status ≠ STATUS_OK then pure status
    else do
      let status ← Parcel.writeBool p.calls.toOutside allowIsolated
      if status ≠ STATUS_OK then pure status
      else Parcel.writeInt32 p.calls.toOutside dumpPriority

/-- The reply of `addService`. -/
def readAdded (aidl_status : Status) : Prog (Ctx W) Fault Status := do
  let (status, st) ← aidl_status.readFromParcel
  if status ≠ STATUS_OK then pure (st.setFromStatusT status)
  else if st.mException ≠ EX_NONE then pure st
  else pure (st.setFromStatusT status)

/-- `BpAIDLServiceManager_addService` -/
def addService (name : BinderString) (service : BitVec 64) (allowIsolated : Bool)
    (dumpPriority : BitVec 32) (aidl_status : Status) : Prog (Request W) Fault Status :=
  p.request TRANSACTION_addService (p.writeService name service allowIsolated dumpPriority)
    aidl_status.setFromStatusT
    (fun impl => impl.addService name service allowIsolated dumpPriority aidl_status)
    (readAdded aidl_status)

end BpAIDLServiceManager

/-- A call through the proxy. -/
inductive ServiceCall
  | getService (name : BinderString) (aidl_status : Status)
  | checkService (name : BinderString) (aidl_status : Status)
  | addService (name : BinderString) (service : BitVec 64) (allowIsolated : Bool)
      (dumpPriority : BitVec 32) (aidl_status : Status)

namespace BpAIDLServiceManager

open Request

variable {W A : Type} (p : BpAIDLServiceManager W)

/-- The call, without what it returns. -/
def call : ServiceCall → Prog (Request W) Fault Unit
  | .getService name st => do let _ ← p.getService name st
  | .checkService name st => do let _ ← p.checkService name st
  | .addService name service allowIsolated dumpPriority st => do
    let _ ← p.addService name service allowIsolated dumpPriority st

/-- One call after another. -/
def calling : List ServiceCall → Prog (Request W) Fault Unit
  | [] => pure ()
  | o :: os => do
    p.call o
    calling os

theorem wp_standIn {status : Int} {Q : Option (DefaultImpl W) → Request W → Prop}
    {E : Fault → Prop} {r : Request W} : wp (p.standIn status) Q E r ↔
      Q (if status = STATUS_UNKNOWN_TRANSACTION then p.defaultImpl r.world else none) r := Iff.rfl

/-! ## What a call leaves -/

variable (held : W → BitVec 32)

/-- The strong references on the remote binder that nobody accounts for. `held` are the references
of others, with those that still wait to be given back. -/
def unclaimed (w : W) : BitVec 32 := (p.remoteRefs.refs w).mStrong - held w

/-- Who runs takes and gives back only references that `held` counts. -/
abbrev Accounts {α : Type} (m : Prog W Fault α) : Prop :=
  Keeps (fun w w' => p.unclaimed held w' = p.unclaimed held w) (fun _ _ => True) m

/-- A request that takes and gives back only references that `held` counts. -/
abbrev RequestAccounts {α : Type} (m : Prog (Request W) Fault α) : Prop :=
  Keeps (fun r r' => p.unclaimed held r'.world = p.unclaimed held r.world) (fun _ _ => True) m

/-- All others account for their references on the remote binder: the functions that a request
calls, the remote binder and the default implementation. -/
structure OthersAccount : Prop where
  putRefs : ∀ r w, held (p.remoteRefs.putRefs r w) = held w
  incStrong : ∀ a, p.Accounts held (p.calls.incStrong a)
  incStrongRequireStrong : ∀ a, p.Accounts held (p.calls.incStrongRequireStrong a)
  getStrongProxyForHandle : ∀ h, p.Accounts held (p.calls.getStrongProxyForHandle h)
  backgroundSchedulingDisabled : p.Accounts held p.calls.backgroundSchedulingDisabled
  localBinder : ∀ a, p.Accounts held (p.calls.localBinder a)
  remoteBinder : ∀ a, p.Accounts held (p.calls.remoteBinder a)
  mStability : ∀ a, p.Accounts held (p.calls.mStability a)
  putStability : ∀ a s, p.Accounts held (p.calls.putStability a s)
  setParceled : ∀ a, p.Accounts held (p.calls.setParceled a)
  getMinSchedulerPolicy : ∀ a, p.Accounts held (p.calls.getMinSchedulerPolicy a)
  getMinSchedulerPriority : ∀ a, p.Accounts held (p.calls.getMinSchedulerPriority a)
  isRequestingSid : ∀ a, p.Accounts held (p.calls.isRequestingSid a)
  isInheritRt : ∀ a, p.Accounts held (p.calls.isInheritRt a)
  getWeakRefs : ∀ a, p.Accounts held (p.calls.getWeakRefs a)
  binderHandle : ∀ a, p.Accounts held (p.calls.binderHandle a)
  transact : ∀ code, p.RequestAccounts held (p.transact code)
  getService : ∀ w impl, p.defaultImpl w = some impl → ∀ name st,
    p.Accounts held (impl.getService name st)
  checkService : ∀ w impl, p.defaultImpl w = some impl → ∀ name st,
    p.Accounts held (impl.checkService name st)
  addService : ∀ w impl, p.defaultImpl w = some impl → ∀ name a b n st,
    p.Accounts held (impl.addService name a b n st)

variable {p held}

section Frames

variable {α β : Type}

theorem accounts_frame :
    Frame (fun w w' => p.unclaimed held w' = p.unclaimed held w) fun _ (_ : Fault) => True where
  refl _ := rfl
  trans a b := b.trans a
  stops _ _ := trivial

theorem request_frame : Frame (fun r r' : Request W =>
    p.unclaimed held r'.world = p.unclaimed held r.world) fun _ (_ : Fault) => True where
  refl _ := rfl
  trans a b := b.trans a
  stops _ _ := trivial

theorem RequestAccounts.onWorld {m : Prog W Fault α} (h : p.Accounts held m) :
    p.RequestAccounts held (onWorld m) := by
  intro r
  unfold Request.onWorld
  rw [wp_zoom]
  exact h r.world

/-! ### The parcels -/

/-- What a request writes into its own data. -/
abbrev WritesData {α : Type} (p : BpAIDLServiceManager W) (held : W → BitVec 32)
    (m : Prog (Ctx W) Fault α) : Prop := Parcel.WritesLeaving (p.unclaimed held) m

/-- What a request reads. -/
abbrev SameClaims (p : BpAIDLServiceManager W) (held : W → BitVec 32) : Ctx W → Ctx W → Prop :=
  Parcel.SamePart (p.unclaimed held)

theorem OthersAccount.calls (h : p.OthersAccount held) :
    CallsLeave (p.unclaimed held) p.calls where
  incStrong := h.incStrong
  incStrongRequireStrong := h.incStrongRequireStrong
  getStrongProxyForHandle := h.getStrongProxyForHandle
  backgroundSchedulingDisabled := h.backgroundSchedulingDisabled
  localBinder := h.localBinder
  remoteBinder := h.remoteBinder
  mStability := h.mStability
  putStability := h.putStability
  setParceled := h.setParceled
  getMinSchedulerPolicy := h.getMinSchedulerPolicy
  getMinSchedulerPriority := h.getMinSchedulerPriority
  isRequestingSid := h.isRequestingSid
  isInheritRt := h.isInheritRt
  getWeakRefs := h.getWeakRefs
  binderHandle := h.binderHandle

/-- The arguments of `addService` leave what the functions that they call leave. -/
theorem writeService_leaves {K : Type} {g : W → K} (h : CallsLeave g p.calls) (name : BinderString)
    (service : BitVec 64) (allowIsolated : Bool) (dumpPriority : BitVec 32) :
    Parcel.WritesLeaving g (p.writeService name service allowIsolated dumpPriority) := by
  refine Parcel.writing_frame.bind (Parcel.writeString16_leaves _) fun _ =>
    .ite (Parcel.writing_frame.pure _) ?_
  refine Parcel.writing_frame.bind (Parcel.writeStrongBinder_leaves h _) fun _ =>
    .ite (Parcel.writing_frame.pure _) ?_
  exact Parcel.writing_frame.bind (Parcel.writeInt32_leaves _) fun _ =>
    .ite (Parcel.writing_frame.pure _) (Parcel.writeInt32_leaves _)

/-- The data of a request leaves what its arguments leave. -/
theorem writeToken_leaves {K : Type} {g : W → K} {arguments : Prog (Ctx W) Fault Int}
    (h : Parcel.WritesLeaving g arguments) : Parcel.WritesLeaving g (do
      let status ← Parcel.writeInterfaceToken p.calls p.interfaceDescriptor
      if status ≠ STATUS_OK then pure status else arguments) :=
  Parcel.writing_frame.bind (Parcel.writeInterfaceToken_leaves _) fun _ =>
    .ite (Parcel.writing_frame.pure _) h

theorem readBinder_reads (h : p.OthersAccount held) (st : Status) :
    Parcel.Leaves (p.SameClaims held) (p.readBinder st) := by
  refine (Parcel.Leaves.readFromParcel st).bind fun _ => .ite (Parcel.Leaves.pure _) ?_
  exact (Parcel.Leaves.readNullableStrongBinder (Parcel.reads_leave h.calls)).bind fun _ =>
    Parcel.Leaves.pure _

theorem readAdded_reads (st : Status) : Parcel.Leaves (p.SameClaims held) (readAdded st) := by
  refine (Parcel.Leaves.readFromParcel st).bind fun _ => .ite (Parcel.Leaves.pure _) ?_
  exact .ite (Parcel.Leaves.pure _) (Parcel.Leaves.pure _)

end Frames

/-! ### The calls -/

section Calls

variable (h : p.OthersAccount held)

include h

/-- The reference that `BpRefBase_remoteStrong` takes. -/
theorem remoteStrong_takes (hremote : p.mRemote ≠ 0) (w : W) :
    wp p.remoteStrong (fun _ w' => p.unclaimed held w' = p.unclaimed held w + 1)
      (fun _ => True) w := by
  unfold remoteStrong RefBase.incStrongRequireStrong RefBase.incWeak
  rw [if_pos hremote]
  simp only [wp_bind, RefBase.wp_fetchAddWeak, RefBase.wp_fetchAddStrong, wp_ite, wp_fault,
    wp_pure, implies_true, true_and]
  intro _ _
  unfold unclaimed
  rw [p.remoteRefs.refs_put, p.remoteRefs.refs_put, h.putRefs, h.putRefs]
  exact (sub_add_eq_add_sub _ _ _).symm

/-- The request as it is handed to the remote binder: with a reference that was taken for it. -/
theorem writeRequest_takes {arguments : Prog (Ctx W) Fault Int} (hremote : p.mRemote ≠ 0)
    (hwrites : p.WritesData held arguments) (r : Request W) :
    wp (p.writeRequest arguments)
      (fun _ r' => p.unclaimed held r'.world = p.unclaimed held r.world + 1) (fun _ => True) r := by
  have hdata := writeToken_leaves (p := p) hwrites
  unfold writeRequest onData onReply onWorld Parcel.initState
  rw [wp_bind, wp_zoom, wp_update, wp_bind, wp_zoom, wp_update, wp_bind, wp_zoom]
  refine wp_imp (remoteStrong_takes h hremote r.world) fun _ w htook => ?_
  rw [wp_zoom]
  refine wp_imp (hdata ⟨Parcel.empty, r.heap, w⟩) fun _ c hc => ?_
  exact (hc Parcel.empty_local).2.trans htook

/-- A request gives nothing back, whichever way it ends. -/
theorem request_takes {A : Type} {code : BitVec 32} {arguments : Prog (Ctx W) Fault Int}
    {fails : Int → A} {asks : DefaultImpl W → Prog W Fault A} {answer : Prog (Ctx W) Fault A}
    (hremote : p.mRemote ≠ 0) (hwrites : p.WritesData held arguments)
    (hasks : ∀ w impl, p.defaultImpl w = some impl → p.Accounts held (asks impl))
    (hreads : Parcel.Leaves (p.SameClaims held) answer) (r : Request W) :
    wp (p.request code arguments fails asks answer)
      (fun _ r' => p.unclaimed held r'.world = p.unclaimed held r.world + 1)
      (fun _ => True) r := by
  have hanswer : p.RequestAccounts held (onReply answer) := by
    intro r
    unfold onReply
    rw [wp_zoom]
    exact hreads _
  have htransact : p.RequestAccounts held (p.transactRemote code) :=
    .ite (fun _ => trivial) (h.transact code)
  unfold request
  rw [wp_bind]
  refine wp_imp (writeRequest_takes h hremote hwrites r) fun status r₁ htook => ?_
  rw [wp_ite, wp_pure]
  refine ⟨fun _ => htook, fun _ => ?_⟩
  rw [wp_bind]
  refine wp_imp (htransact r₁) fun status r₂ hsame => ?_
  rw [wp_bind, wp_standIn]
  split
  · rename_i impl hstand
    have hknown : p.defaultImpl r₂.world = some impl := by
      split at hstand
      · exact hstand
      · cases hstand
    refine wp_imp (RequestAccounts.onWorld (hasks _ _ hknown) r₂) fun _ r₃ hkept => ?_
    exact hkept.trans (hsame.trans htook)
  · rw [wp_ite, wp_pure]
    refine ⟨fun _ => hsame.trans htook, fun _ => ?_⟩
    exact wp_imp (hanswer r₂) fun _ r₃ hkept => hkept.trans (hsame.trans htook)

theorem call_takes (hremote : p.mRemote ≠ 0) (o : ServiceCall) (r : Request W) :
    wp (p.call o) (fun _ r' => p.unclaimed held r'.world = p.unclaimed held r.world + 1)
      (fun _ => True) r := by
  cases o with
  | getService name st =>
    unfold call
    rw [wp_bind]
    exact request_takes h hremote (Parcel.writeString16_leaves name)
      (fun w impl hi => h.getService w impl hi name st) (readBinder_reads h st) r
  | checkService name st =>
    unfold call
    rw [wp_bind]
    exact request_takes h hremote (Parcel.writeString16_leaves name)
      (fun w impl hi => h.checkService w impl hi name st) (readBinder_reads h st) r
  | addService name service allowIsolated dumpPriority st =>
    unfold call
    rw [wp_bind]
    exact request_takes h hremote (writeService_leaves h.calls name service _ _)
      (fun w impl hi => h.addService w impl hi name service _ _ st) (readAdded_reads st) r

theorem calling_takes (hremote : p.mRemote ≠ 0) (os : List ServiceCall) (r : Request W) :
    wp (p.calling os) (fun _ r' => p.unclaimed held r'.world =
      p.unclaimed held r.world + BitVec.ofNat 32 os.length) (fun _ => True) r := by
  induction os generalizing r with
  | nil =>
    unfold calling
    rw [wp_pure]
    simp
  | cons o os ih =>
    unfold calling
    rw [wp_bind]
    refine wp_imp (call_takes h hremote o r) fun _ r₁ htook => ?_
    refine wp_imp (ih r₁) fun _ r₂ hrest => ?_
    rw [hrest, htook, List.length_cons, BitVec.ofNat_add, add_assoc, add_comm 1]
    rfl

end Calls

/-- The strong count of the remote binder. -/
def strong (p : BpAIDLServiceManager W) (w : W) : BitVec 32 := (p.remoteRefs.refs w).mStrong

/-- A count above `MAX_COUNT` and below the initial value has a bit that is taken for damage. -/
theorem badStrong_above {c : BitVec 32} (hlow : MAX_COUNT.toNat < c.toNat)
    (hhigh : c.toNat < 2 ^ 28) : badStrong c = true := by
  unfold badStrong
  rw [Bool.or_eq_true, bne_iff_ne]
  refine .inr fun hzero => ?_
  have hmask := and_eq_of_and_not_eq_zero hzero
  have hbits : c.toNat &&& 2 ^ 28 - 1 = c.toNat := by
    rw [Nat.and_two_pow_sub_one_eq_mod, Nat.mod_eq_of_lt hhigh]
  have hless : c.toNat = c.toNat &&& MAX_COUNT.toNat := by
    have htoNat := congrArg BitVec.toNat hmask
    rw [BitVec.toNat_and] at htoNat
    calc c.toNat
        = c.toNat &&& (MAX_COUNT ||| INITIAL_STRONG_VALUE).toNat &&& 2 ^ 28 - 1 := by
          rw [htoNat, hbits]
      _ = c.toNat &&& MAX_COUNT.toNat := by
          rw [Nat.and_assoc]
          rfl
  have hle : c.toNat &&& MAX_COUNT.toNat ≤ MAX_COUNT.toNat := Nat.and_le_right
  omega

theorem decStrong_exits {o : RefBase W} {w : W} (h : badStrong (o.refs w).mStrong = true) :
    o.decStrong w = .error (.logFatal "decStrong() called too many times") := by
  unfold RefBase.decStrong
  show (if badStrong (o.refs w).mStrong = true then _ else _ : Prog W Fault Unit) _ = _
  rw [if_pos h]
  rfl

/-- No call through the proxy gives back the reference that `BpRefBase_remoteStrong` took for it.
Where the others hold as many references as before, the count is never what it was, and once a run
of calls brought it past `MAX_COUNT`, the next `decStrong` exits. -/
theorem no_call_gives_its_reference_back (p : BpAIDLServiceManager W) (held : W → BitVec 32)
    (hremote : p.mRemote ≠ 0) (h : p.OthersAccount held) (os : List ServiceCall) (r : Request W) :
    Always p.call (fun _ r result => ∀ r', result = .ok ((), r') →
        p.unclaimed held r'.world = p.unclaimed held r.world + 1 ∧
          (held r'.world = held r.world → p.strong r'.world ≠ p.strong r.world)) os r ∧
      ∀ r', p.calling os r = .ok ((), r') →
        p.unclaimed held r'.world = p.unclaimed held r.world + BitVec.ofNat 32 os.length ∧
          (held r'.world = held r.world →
            MAX_COUNT.toNat < (p.strong r.world).toNat + os.length →
            (p.strong r.world).toNat + os.length < INITIAL_STRONG_VALUE.toNat →
            p.remoteRefs.decStrong r'.world =
              .error (.logFatal "decStrong() called too many times")) := by
  constructor
  · refine always_of_inv (fun _ => True) (fun o r _ _ r' hrun => ?_)
      (fun _ _ _ _ _ _ _ => trivial) trivial allowed_all
    have htook := (call_takes h hremote o r).of_ok hrun
    refine ⟨htook, fun hheld hsame => ?_⟩
    unfold unclaimed at htook
    unfold strong at hsame
    rw [hsame, hheld, left_eq_add] at htook
    exact absurd htook (by decide)
  · intro r' hrun
    have htook := (calling_takes h hremote os r).of_ok hrun
    refine ⟨htook, fun hheld hlow hhigh => decStrong_exits ?_⟩
    have hcount : p.strong r'.world = p.strong r.world + BitVec.ofNat 32 os.length := by
      unfold unclaimed at htook
      rw [hheld, sub_eq_iff_eq_add, add_right_comm, sub_add_cancel] at htook
      exact htook
    have hinitial : INITIAL_STRONG_VALUE.toNat = 2 ^ 28 := by decide
    have hnat : (p.strong r'.world).toNat = (p.strong r.world).toNat + os.length := by
      rw [hcount, BitVec.toNat_add, BitVec.toNat_ofNat, Nat.add_mod_mod]
      exact Nat.mod_eq_of_lt (by omega)
    exact badStrong_above (by rw [← strong, hnat]; exact hlow) (by rw [← strong, hnat]; omega)

/-- The counts of a binder that is told nothing. -/
def plainRefs : RefBase WeakrefImpl := RefBase.bare

/-- A process whose service manager died. -/
def deadManager : BpAIDLServiceManager WeakrefImpl where
  calls :=
    { incStrong := fun _ => pure ()
      decStrong := fun _ => pure ()
      getStrongProxyForHandle := fun _ => pure 0
      close := fun _ => pure ()
      freeBuffer := fun _ => pure ()
      thread := fun _ => ⟨none, 0, none, 0, 0, 0, 0, false⟩
      putThread := fun _ w => w
      backgroundSchedulingDisabled := pure false
      getInterfaceDescriptor := fun _ => pure Parcel.hi
      localBinder := fun _ => pure 0
      remoteBinder := fun _ => pure 0
      mStability := fun _ => pure 0
      putStability := fun _ _ => pure ()
      setParceled := fun _ => pure ()
      getMinSchedulerPolicy := fun _ => pure 0
      getMinSchedulerPriority := fun _ => pure 0
      isRequestingSid := fun _ => pure false
      isInheritRt := fun _ => pure false
      getWeakRefs := fun _ => pure 0
      incStrongRequireStrong := fun _ => pure ()
      binderHandle := fun _ => pure 0 }
  mRemote := 0x1000
  remoteRefs := plainRefs
  interfaceDescriptor := Parcel.hi
  transact := fun _ => pure STATUS_DEAD_OBJECT
  defaultImpl := fun _ => none

theorem deadManager_accounts : deadManager.OthersAccount fun _ => 1 where
  putRefs _ _ := rfl
  incStrong _ := accounts_frame.pure _
  incStrongRequireStrong _ := accounts_frame.pure _
  getStrongProxyForHandle _ := accounts_frame.pure _
  backgroundSchedulingDisabled := accounts_frame.pure _
  localBinder _ := accounts_frame.pure _
  remoteBinder _ := accounts_frame.pure _
  mStability _ := accounts_frame.pure _
  putStability _ _ := accounts_frame.pure _
  setParceled _ := accounts_frame.pure _
  getMinSchedulerPolicy _ := accounts_frame.pure _
  getMinSchedulerPriority _ := accounts_frame.pure _
  isRequestingSid _ := accounts_frame.pure _
  isInheritRt _ := accounts_frame.pure _
  getWeakRefs _ := accounts_frame.pure _
  binderHandle _ := accounts_frame.pure _
  transact _ := request_frame.pure _
  getService _ _ h := by cases h
  checkService _ _ h := by cases h
  addService _ _ h := by cases h

/-- A client that holds `strong` references on the service manager. -/
def polling (strong : BitVec 32) : Request WeakrefImpl :=
  ⟨Parcel.empty, Parcel.empty, Parcel.plenty, ⟨strong, strong, OBJECT_LIFETIME_WEAK⟩⟩

def noStatus : Status := ⟨EX_NONE, 0, Parcel.hi⟩

/-- One call more than `MAX_COUNT` allows. -/
theorem the_last_call_of_a_polling_client :
    ∃ r', deadManager.calling [.checkService Parcel.hi noStatus] (polling 0xfffff) =
        .ok ((), r') ∧
      plainRefs.decStrong r'.world = .error (.logFatal "decStrong() called too many times") := by
  obtain ⟨u, r', hrun, -⟩ : ∃ u r', deadManager.calling [.checkService Parcel.hi noStatus]
      (polling 0xfffff) = .ok (u, r') ∧ True := wp_never_iff.mp (by decide +kernel)
  have h := no_call_gives_its_reference_back deadManager (fun _ => 1) (by decide)
    deadManager_accounts [.checkService Parcel.hi noStatus] (polling 0xfffff)
  exact ⟨r', hrun, (h.2 r' hrun).2 rfl (by decide) (by decide)⟩

/-- A name is checked, the remote answers that it is dead, and the count stays one higher. -/
theorem a_check_keeps_a_reference :
    wp (deadManager.checkService Parcel.hi noStatus) (fun _ r' =>
      deadManager.strong r'.world ≠ deadManager.strong (polling 1).world) never (polling 1) := by
  decide +kernel

end BpAIDLServiceManager

end system_binder
