-- What the client of the service manager is told about a service that it adds.
import SystemBinder.BnServiceManager
import SystemBinder.StatusReads

open prog memory

namespace system_binder

/-! ## What cannot be read -/

namespace Parcel

theorem of_mem_readStatuses {status : Int} (h : status ∈ readStatuses) (hne : status ≠ STATUS_OK) :
    status < STATUS_OK ∧ status ≠ STATUS_UNKNOWN_TRANSACTION := by
  have hall : ∀ status ∈ readStatuses, status ≠ STATUS_OK →
      status < STATUS_OK ∧ status ≠ STATUS_UNKNOWN_TRANSACTION := by decide
  exact hall status h hne

end Parcel

namespace BnAIDLServiceManager

variable {S : Type} {n : BnAIDLServiceManager S}

/-- A request that cannot be read ends with the status of a read. -/
theorem readArguments.returns : Returns (fun read => ∀ status, read = .error status →
    status ∈ Parcel.readStatuses ∧ status ≠ STATUS_OK) n.readArguments := by
  have hfails : ∀ {a : Int}, a ∈ Parcel.readStatuses → a ≠ STATUS_OK →
      Returns (fun read => ∀ status, read = .error status →
        status ∈ Parcel.readStatuses ∧ status ≠ STATUS_OK)
        (pure (.error a) : Prog (Ctx (ServiceManager S)) Fault (Except Int Arguments)) := by
    intro a ha hne
    refine .pure fun status h => ?_
    cases h
    exact ⟨ha, hne⟩
  refine .after fun _ => .after fun _ => .ite (fun _ => hfails (by decide) (by decide)) fun _ => ?_
  refine (Parcel.readString16_to.returns _).bind fun _ h => .ite (hfails h) fun _ => ?_
  refine Parcel.readStrongBinder.returns.bind fun _ h => .ite (hfails h) fun _ => ?_
  refine Parcel.readBool.returns.bind fun _ h => .ite (hfails h) fun _ => .after fun _ => ?_
  refine (Parcel.readInt32.returns _).bind fun _ h => .ite (hfails h) fun _ => .pure fun _ h => ?_
  cases h

/-! ## What the server answers -/

/-- The allocator grants what it granted before. -/
def SameFresh {W : Type} (c c' : Ctx W) : Prop := c'.heap.fresh = c.heap.fresh

instance {W : Type} : Parcel.ReadFrame (SameFresh (W := W)) where
  frame :=
    { refl := fun _ => rfl
      trans := fun a b => Eq.trans b a
      stops := fun _ _ => trivial }
  parcel _ _ _ := rfl
  heap _ _ h := h _

theorem outside_fresh {W α : Type} (m : Prog W Fault α) :
    Parcel.Leaves SameFresh (system_binder.outside m) := by
  intro c
  rw [wp_outside]
  exact wp_of_all (fun _ _ => rfl) fun _ => trivial

theorem readArguments.fresh : Parcel.Leaves SameFresh n.readArguments := by
  have hcalls : Parcel.Leaves.OfCalls SameFresh n.calls :=
    ⟨fun _ => outside_fresh _, fun _ => outside_fresh _, fun _ _ => outside_fresh _⟩
  refine Parcel.Leaves.indeterminateString.bind fun _ => ?_
  refine (Parcel.Leaves.checkInterface (outside_fresh _) fun _ _ => rfl).bind fun _ =>
    .ite (Parcel.Leaves.pure _) ?_
  refine (Parcel.Leaves.readString16_to _).bind fun _ => .ite (Parcel.Leaves.pure _) ?_
  refine (Parcel.Leaves.readStrongBinder hcalls).bind fun _ => .ite (Parcel.Leaves.pure _) ?_
  refine Parcel.Leaves.readBool.bind fun _ => .ite (Parcel.Leaves.pure _) ?_
  refine Parcel.Leaves.indeterminate.bind fun _ => ?_
  exact (Parcel.Leaves.readInt32 _).bind fun _ =>
    .ite (Parcel.Leaves.pure _) (Parcel.Leaves.pure _)

end BnAIDLServiceManager

namespace ServiceManager

variable {S : Type} {x : ServiceCalls S} {m : ServiceManager S}

/-- `addService` refuses a service whose binder is NULL, whose name is not valid, or whose death
cannot be watched. -/
def Refuses (x : ServiceCalls S) (name : BinderString) (binder : BitVec 64) (w : S) : Prop :=
  ∃ pid w', x.getCallingPid w = .ok (pid, w') ∧ (binder = 0 ∨ isValidServiceName name.chars = false ∨
    ∃ w'', watched x binder w' = .ok (false, w''))

theorem register.returns (name : Long) (record : BinderService) :
    Returns (fun status => status = STATUS_OK) (register x name record) :=
  .after fun _ => .after fun _ => .after fun _ =>
    .ite (fun _ => .after fun _ => .after fun _ => .pure rfl) fun _ => .pure rfl

/-- It returns an error for exactly what it refuses. -/
theorem addService.refuses {name : Long} {text : BinderString} (htext : m.strings name = text)
    (binder : BitVec 64) (allowIsolated : Bool) (dumpPriority : BitVec 32) :
    wp (addService x name binder allowIsolated dumpPriority)
      (fun status _ => status = STATUS_OK ↔ ¬Refuses x text binder m.world)
      (fun _ => ¬Refuses x text binder m.world) m := by
  have hvalue : STATUS_BAD_VALUE ≠ STATUS_OK := by decide
  have htype : STATUS_BAD_TYPE ≠ STATUS_OK := by decide
  unfold addService onWorld
  rw [wp_bind, wp_zoom]
  refine wp_of_result (fun pid w hpid => ?_) fun e hpid hrefused => ?_
  swap
  · obtain ⟨pid, w, hknown, -⟩ := hrefused
    rw [hknown] at hpid
    cases hpid
  have hrefuses : Refuses x text binder m.world ↔ binder = 0 ∨
      isValidServiceName text.chars = false ∨
      ∃ w', watched x binder w = .ok (false, w') := by
    constructor
    · rintro ⟨pid', w', hpid', hrest⟩
      rw [hpid] at hpid'
      cases hpid'
      exact hrest
    · exact fun h => ⟨pid, w, hpid, h⟩
  rw [hrefuses, wp_ite, wp_pure]
  refine ⟨fun hnull => by simp [hvalue, hnull], fun hnull => ?_⟩
  rw [wp_bind, wp_stringAt, htext, wp_ite, wp_pure]
  refine ⟨fun hname => by simp [hvalue, hname], fun hname => ?_⟩
  have hlinked : (binder = 0 ∨ isValidServiceName text.chars = false ∨
      ∃ w', watched x binder w = .ok (false, w')) ↔
      ∃ w', watched x binder w = .ok (false, w') := by
    rw [or_iff_right hnull, or_iff_right hname]
  rw [hlinked, wp_bind, wp_zoom]
  refine wp_of_result (fun ok w' hwatched => ?_) fun e hwatched => ?_
  · rw [wp_ite, wp_pure, hwatched]
    refine ⟨fun hno => ?_, fun hyes => ?_⟩
    · rw [hno]
      simp [htype]
    · have hnone : ¬∃ w'', Except.ok (ε := Fault) (ok, w') = .ok (false, w'') := by
        rintro ⟨w'', h⟩
        cases h
        exact hyes rfl
      exact wp_mono (register.returns name _ _) (fun status _ h => iff_of_true h hnone)
        fun _ _ => hnone
  · rw [hwatched]
    rintro ⟨w', h⟩
    cases h

end ServiceManager

namespace BnAIDLServiceManager

variable {S : Type} {n : BnAIDLServiceManager S}

theorem Vfun_addService.spec {arguments : Arguments} {retStatus : Status} {m : ServiceManager S} :
    wp (n.Vfun_addService arguments retStatus) (fun added _ =>
        (added.1 = STATUS_OK ↔ ¬ServiceManager.Refuses n.services arguments.in_name
          arguments.in_service m.world) ∧ added.2.mException = retStatus.mException)
      (fun _ => ¬ServiceManager.Refuses n.services arguments.in_name arguments.in_service m.world)
      m := by
  unfold Vfun_addService
  rw [wp_bind, wp_modify, wp_bind]
  exact wp_imp (ServiceManager.addService.refuses (Function.update_self ..) _ _ _)
    fun err _ herr => ⟨herr, rfl⟩

end BnAIDLServiceManager

/-! ## The reply -/

/-- A reply that can be sent, and whose first word is `word`. -/
structure Begins (word : BitVec 32) (p : Parcel) : Prop where
  isLocal : Parcel.Local p
  error : p.mError = STATUS_OK
  first : window p.cells 0 4 = wordBytes 4 word
  size : 4 ≤ p.mDataSize
  small : p.mDataSize ≤ 2 ^ 30

section Replies

open Parcel

variable {W : Type} {x : Outside W} {c c' : Ctx W} {E : Fault → Prop} {n : Nat} {word : BitVec 32}

/-- The first word of an empty parcel. -/
theorem begins_of_advanced (hempty : c.parcel = empty) (a : Advanced c c' 4)
    (hword : window c'.parcel.cells c.parcel.mDataPos 4 = wordBytes 4 word) :
    Begins word c'.parcel := by
  have hsize := a.size
  rw [hempty] at hword hsize
  have hsize' : c'.parcel.mDataSize = 4 := hsize
  refine ⟨a.isLocal, ?_, hword, by omega, by omega⟩
  rw [a.error, hempty]
  rfl

/-- What comes later leaves the first word. -/
theorem Begins.advanced (h : Begins word c.parcel) (a : Advanced c c' n)
    (hend : c.parcel.mDataPos = c.parcel.mDataSize) (hsmall : c.parcel.mDataPos + n ≤ 2 ^ 30) :
    Begins word c'.parcel := by
  have hsize := h.size
  have hcap := h.isLocal.size
  have hsize' := a.size
  refine ⟨a.isLocal, a.error.trans h.error, ?_, by omega, by omega⟩
  rw [a.others 0 4 (by omega) (by omega), h.first]

theorem writeToParcel.none {st : Status} (hempty : c.parcel = empty) (ha : Ample c.heap)
    (hnone : st.mException = EX_NONE) : wp (st.writeToParcel x)
      (fun status c' => status = STATUS_OK ∧ Begins EX_NONE c'.parcel) E c := by
  have l : Local c.parcel := by
    rw [hempty]
    exact empty_local
  have hpos : c.parcel.mDataPos = 0 := by rw [hempty]; rfl
  have hsize : c.parcel.mDataSize = 0 := by rw [hempty]; rfl
  unfold Status.writeToParcel
  rw [hnone, if_neg (by decide), wp_bind]
  refine wp_imp (writeInt32.at_end l ha (by omega) (by omega)) ?_
  rintro status c' ⟨rfl, a, hword⟩
  rw [if_neg (by simp), if_pos rfl]
  exact ⟨rfl, begins_of_advanced hempty a hword⟩

theorem writeToParcel.thrown {st : Status} {text : List UInt8} (hempty : c.parcel = empty)
    (ha : Ample c.heap) (hword : st.mException = EX_NULL_POINTER) (htext : st.mMessage.Carries text) :
    wp (st.writeToParcel x)
      (fun status c' => status = STATUS_OK ∧ Begins EX_NULL_POINTER c'.parcel) E c := by
  have l : Local c.parcel := by
    rw [hempty]
    exact empty_local
  have hpos : c.parcel.mDataPos = 0 := by rw [hempty]; rfl
  have hsize : c.parcel.mDataSize = 0 := by rw [hempty]; rfl
  have hfits : text.length ≤ 64 := htext.fits
  have htextSize : stringSize text ≤ 72 := by
    unfold stringSize
    omega
  unfold Status.writeToParcel
  rw [hword, if_neg (by decide), wp_bind]
  refine wp_imp (writeInt32.at_end l ha (by omega) (by omega)) ?_
  rintro status c₁ ⟨rfl, a₁, hfirst⟩
  have hp₁ := a₁.pos
  have b₁ := begins_of_advanced hempty a₁ hfirst
  rw [if_neg (by simp), if_neg (by decide), wp_bind]
  refine wp_imp (writeString16.at_end htext a₁.isLocal (a₁.ample ha) (a₁.ends (by omega))
    (by omega)) ?_
  rintro status c₂ ⟨rfl, a₂, -, -⟩
  have hp₂ := a₂.pos
  have b₂ := b₁.advanced a₂ (a₁.ends (by omega)) (by omega)
  have hend₂ := a₂.ends (a₁.ends (by omega))
  rw [if_neg (by simp), wp_bind]
  refine wp_imp (writeInt32.at_end a₂.isLocal (a₂.ample (a₁.ample ha)) hend₂ (by omega)) ?_
  rintro status c₃ ⟨rfl, a₃, -⟩
  rw [if_neg (by simp), if_neg (by decide), if_neg (by decide)]
  exact ⟨rfl, b₂.advanced a₃ hend₂ (by omega)⟩

end Replies

/-- What is sent is data that begins with `word`. -/
def Says (word : BitVec 32) (sent : Sent) : Prop :=
  ∃ bytes, sent = .data bytes ∧ window bytes 0 4 = wordBytes 4 word ∧ 4 ≤ bytes.length ∧
    bytes.length ≤ 2 ^ 30

/-- The position of a reply does not matter. -/
theorem Begins.sent {word : BitVec 32} {p p' : Parcel} (h : Begins word p) (m : Parcel.Moved p p')
    (herror : p'.mError = p.mError) : Says word p'.sent := by
  have hsize := h.size
  have hlocal := h.isLocal.size
  have hall : p'.ipcData = window p.cells 0 p.mDataSize := by
    unfold Parcel.ipcData
    rw [m.cells, m.size]
    have hpos := m.pos
    rw [m.size] at hpos
    split
    · rfl
    · rw [show p'.mDataPos = p.mDataSize by omega]
  have hlength : (window p.cells 0 p.mDataSize).length = p.mDataSize := by
    rw [length_window (by rw [h.isLocal.data]; omega)]
  refine ⟨window p.cells 0 p.mDataSize, ?_, ?_, by omega, by rw [hlength]; exact h.small⟩
  · unfold Parcel.sent
    rw [herror, h.error, if_pos rfl, hall]
  · rw [window_window (by omega), h.first]

namespace BnAIDLServiceManager

open Request

variable {S : Type} (n : BnAIDLServiceManager S)

/-- The arguments arrive, and `addService` refuses them. -/
def Refuses (buffer : Parcel) (heap : Heap) (m : ServiceManager S) : Prop :=
  ∃ arguments c, (do
      Parcel.setDataPosition 0
      n.readArguments) ⟨buffer, heap, m⟩ = .ok (.ok arguments, c) ∧
    ServiceManager.Refuses n.services arguments.in_name arguments.in_service c.world.world

/-- What is sent and what `addService` returned: an error where it refuses, and no exception
wherever it was called. -/
def Tells (refused : Prop) (sent : Sent) (added : Option Int) : Prop :=
  match added with
  | none => ¬refused ∧ (Says EX_NULL_POINTER sent ∨
      ∃ err, sent = .statusCode err ∧ err ≠ STATUS_OK ∧ err ≠ STATUS_UNKNOWN_TRANSACTION)
  | some err => (err = STATUS_OK ↔ ¬refused) ∧ Says EX_NONE sent

variable {n}

theorem startStatus.spec {c : Ctx (ServiceManager S)} {E : Fault → Prop} :
    wp startStatus (fun st c' => st.mException = EX_NONE ∧ c'.parcel = c.parcel ∧
      c'.heap.fresh = c.heap.fresh ∧ c'.world = c.world) E c := ⟨rfl, rfl, rfl, rfl⟩

theorem nullPointer_carries (st : Status) :
    (st.fromExceptionCode EX_NULL_POINTER (some nullPointerText)).mMessage.Carries
      nullPointerText := BinderString.init_carries st.mMessage (by decide)

/-- What the case of `addService` leaves: nothing in the reply where the arguments cannot be
read. -/
def Handled (refused : Prop) (status : Int) (reply : Parcel) (added : Option Int) : Prop :=
  match added with
  | none => ¬refused ∧ reply = Parcel.empty ∧ status ∈ Parcel.readStatuses ∧ status ≠ STATUS_OK
  | some err => (err = STATUS_OK ↔ ¬refused) ∧ status = STATUS_OK ∧ Begins EX_NONE reply

theorem addService.spec {r : Request (ServiceManager S)} {refused : Prop}
    (ha : Parcel.Ample r.heap) (hempty : r.aidl_reply = Parcel.empty)
    (hrefused : refused ↔ ∃ arguments c,
      n.readArguments ⟨r.aidl_data, r.heap, r.world⟩ = .ok (.ok arguments, c) ∧
      ServiceManager.Refuses n.services arguments.in_name arguments.in_service c.world.world) :
    wp n.addService (fun answer r' => (answer.2 = none → Parcel.Ample r'.heap) ∧
      Handled refused answer.1 r'.aidl_reply answer.2) (fun _ => ¬refused) r := by
  unfold addService onData onReply onWorld
  rw [wp_bind, wp_zoom]
  refine wp_of_result (fun read c hread => ?_) fun e hread hno => ?_
  swap
  · obtain ⟨arguments, c, hread', -⟩ := hrefused.mp hno
    rw [hread'] at hread
    cases hread
  have hfresh : c.heap.fresh = r.heap.fresh :=
    (readArguments.fresh (n := n) ⟨r.aidl_data, r.heap, r.world⟩).of_ok hread
  have hac : Parcel.Ample c.heap := by
    unfold Parcel.Ample
    rw [hfresh]
    exact ha
  cases read with
  | error status =>
    obtain ⟨hmem, hne⟩ := (readArguments.returns (n := n)
      ⟨r.aidl_data, r.heap, r.world⟩).of_ok hread status rfl
    refine ⟨fun _ => hac, fun hno => ?_, hempty, hmem, hne⟩
    obtain ⟨arguments, c', hread', -⟩ := hrefused.mp hno
    rw [hread'] at hread
    cases hread
  | ok arguments =>
    have hsame : refused ↔ ServiceManager.Refuses n.services arguments.in_name
        arguments.in_service c.world.world := by
      rw [hrefused]
      constructor
      · rintro ⟨arguments', c', hread', hrest⟩
        rw [hread] at hread'
        cases hread'
        exact hrest
      · exact fun h => ⟨arguments, c, hread, h⟩
    dsimp only
    rw [wp_bind, wp_zoom]
    refine wp_imp startStatus.spec ?_
    rintro st c₁ ⟨hnone, hparcel, hfresh₁, hworld⟩
    rw [wp_bind, wp_zoom]
    refine wp_mono Vfun_addService.spec ?_ fun _ => ?_
    · rintro ⟨err, st'⟩ m' ⟨herr, hst⟩
      rw [hworld] at herr
      dsimp only
      rw [wp_bind, wp_zoom]
      refine wp_imp (writeToParcel.none (hparcel.trans hempty) ?_ (hst.trans hnone)) ?_
      · show Parcel.Ample c₁.heap
        unfold Parcel.Ample
        rw [hfresh₁]
        exact hac
      · rintro status c₂ ⟨rfl, hbegins⟩
        exact ⟨(fun h => by cases h), by rw [hsame]; exact herr, rfl, hbegins⟩
    · rw [hsame]
      rw [hworld]
      exact id

/-- What `onTransact` leaves: the exception in the reply, or an error. -/
def Answered (refused : Prop) (status : Int) (reply : Parcel) (added : Option Int) : Prop :=
  match added with
  | none => ¬refused ∧ ((status = STATUS_OK ∧ Begins EX_NULL_POINTER reply) ∨
      (status < STATUS_OK ∧ status ≠ STATUS_UNKNOWN_TRANSACTION))
  | some err => (err = STATUS_OK ↔ ¬refused) ∧ status = STATUS_OK ∧ Begins EX_NONE reply

theorem answerNull.spec {r : Request (ServiceManager S)} {refused : Prop} {status : Int}
    {added : Option Int} {E : Fault → Prop} (ha : added = none → Parcel.Ample r.heap)
    (h : Handled refused status r.aidl_reply added) :
    wp (n.answerNull status) (fun status r' => Answered refused status r'.aidl_reply added) E r := by
  unfold answerNull onReply
  cases added with
  | some err =>
    obtain ⟨herr, rfl, hbegins⟩ := h
    rw [if_neg (by decide)]
    exact ⟨herr, rfl, hbegins⟩
  | none =>
    obtain ⟨hno, hempty, hmem, hne⟩ := h
    rw [wp_ite, wp_pure]
    refine ⟨fun _ => ?_, fun _ => ⟨hno, .inr (Parcel.of_mem_readStatuses hmem hne)⟩⟩
    rw [wp_bind, wp_zoom]
    refine wp_imp startStatus.spec ?_
    rintro st c ⟨-, hparcel, hfresh, -⟩
    rw [wp_zoom]
    refine wp_imp (writeToParcel.thrown (hparcel.trans hempty) ?_ rfl (nullPointer_carries st)) ?_
    · show Parcel.Ample c.heap
      unfold Parcel.Ample
      rw [hfresh]
      exact ha rfl
    · rintro status c' ⟨rfl, hbegins⟩
      exact ⟨hno, .inl ⟨rfl, hbegins⟩⟩

/-- What the server answered is what is sent. -/
theorem Answered.tells {refused : Prop} {status : Int} {reply reply' : Parcel} {added : Option Int}
    (h : Answered refused status reply added) (m : Parcel.Moved reply reply')
    (herror : reply'.mError = if status < STATUS_OK then status else reply.mError) :
    Tells refused reply'.sent added := by
  have hok : ¬STATUS_OK < STATUS_OK := by decide
  cases added with
  | some err =>
    obtain ⟨herr, rfl, hbegins⟩ := h
    rw [if_neg hok] at herror
    exact ⟨herr, hbegins.sent m herror⟩
  | none =>
    obtain ⟨hno, ⟨rfl, hbegins⟩ | ⟨hneg, hunknown⟩⟩ := h
    · rw [if_neg hok] at herror
      exact ⟨hno, .inl (hbegins.sent m herror)⟩
    · rw [if_pos hneg] at herror
      refine ⟨hno, .inr ⟨status, ?_, hneg.ne, hunknown⟩⟩
      unfold Parcel.sent
      rw [herror, if_neg hneg.ne]

theorem serve.spec {buffer : Parcel} {r : Request (ServiceManager S)} (ha : Parcel.Ample r.heap) :
    wp (n.serve buffer) (fun answer _ => Tells (n.Refuses buffer r.heap r.world) answer.1 answer.2)
      (fun _ => ¬n.Refuses buffer r.heap r.world) r := by
  have hzero : 0 ≤ INT32_MAX := by decide
  unfold serve transact onData onReply
  rw [wp_bind, wp_modify, wp_bind, wp_bind, wp_zoom, Parcel.setDataPosition.spec hzero, wp_bind]
  refine wp_imp (addService.spec ha rfl Iff.rfl) fun answer r₁ ⟨hr, hhandled⟩ => ?_
  rw [wp_bind]
  refine wp_imp (answerNull.spec hr hhandled) fun status r₂ hanswered => ?_
  rw [wp_bind, wp_zoom, Parcel.setDataPosition.spec hzero, wp_pure]
  dsimp only
  rw [wp_bind, wp_zoom, wp_ite, wp_pure]
  refine ⟨fun hneg => ?_, fun hneg => ?_⟩
  · exact hanswered.tells ⟨rfl, rfl, rfl, rfl, rfl, rfl, rfl, Nat.zero_le _⟩ (by rw [if_pos hneg]; rfl)
  · exact hanswered.tells ⟨rfl, rfl, rfl, rfl, rfl, rfl, rfl, Nat.zero_le _⟩ (by rw [if_neg hneg]; rfl)

end BnAIDLServiceManager

/-! ## What the client reads -/

/-- A reply that arrived, and whose first word is `word`. -/
structure Arrived (word : BitVec 32) (p : Parcel) : Prop where
  readable : Parcel.Readable p
  pos : p.mDataPos = 0
  size : 4 ≤ p.mDataSize
  first : window p.cells 0 4 = wordBytes 4 word

section Client

open Parcel

variable {W : Type} {c : Ctx W} {E : Fault → Prop} {st : Status} {word : BitVec 32}

theorem scanForFds.none (h : c.parcel.mObjectsSize = 0) (hpos : c.parcel.mDataPos ≤ c.parcel.mDataSize)
    (hsize : c.parcel.mDataSize ≤ 2 ^ 30) : wp scanForFds (fun _ c' => ∃ fds, c' =
      c.mapParcel fun p => { p with mHasFds := fds, mFdsKnown := true }) E c := by
  unfold scanForFds dataSize hasFileDescriptorsInRange
  simp only [wp_bind, wp_thisParcel, wp_pure]
  rw [Nat.max_eq_left hpos, if_neg (by unfold INT32_MAX; omega), if_neg (by omega), h]
  exact ⟨_, rfl⟩

/-- An empty parcel takes a buffer without objects. -/
theorem ipcSetDataReference.first {x : Outside W} {start table : Nat} {bytes : List UInt8}
    (hempty : c.parcel = empty) (hsize : bytes.length ≤ 2 ^ 30) :
    wp (ipcSetDataReference x ⟨start, bytes⟩ bytes.length ⟨table, []⟩ 0 .freeBuffer)
      (fun _ c' => c'.parcel.cells = bytes ∧ c'.parcel.mDataSize = bytes.length ∧
        c'.parcel.mDataPos = 0) E c := by
  obtain ⟨p, h, w⟩ := c
  cases hempty
  have hfree : freeData x ⟨empty, h, w⟩ = .ok ((), ⟨empty, h, w⟩) := rfl
  unfold ipcSetDataReference checkObjects
  rw [wp_bind, wp_of_ok (by exact hfree), wp_bind, wp_update, wp_bind, wp_pure]
  refine wp_imp (scanForFds.none rfl (Nat.zero_le _) hsize) ?_
  rintro _ c' ⟨fds, rfl⟩
  exact ⟨rfl, rfl, rfl⟩

/-- The data of a reply arrives as it was sent. -/
theorem receive.arrived {S C : Type} {d : Driver S C} {x : Outside (Peers S C)} {sent : Sent}
    {c : Ctx (Peers S C)} (hempty : c.parcel = empty) (h : Says word sent) :
    wp (d.receive x sent) (fun status c' => status = STATUS_OK ∧ Arrived word c'.parcel) E c := by
  obtain ⟨bytes, rfl, hword, hsize, hsmall⟩ := h
  unfold Driver.receive
  rw [wp_bind]
  refine wp_imp (ipcSetDataReference.first hempty hsmall) ?_
  rintro _ c' ⟨hcells, hsize', hpos⟩
  refine ⟨rfl, ⟨?_, ?_, ?_⟩, hpos, by omega, by rw [hcells]; exact hword⟩
  · omega
  · rw [hsize', hcells]
  · rw [hcells]
    unfold Parcel.PTRDIFF_MAX
    omega

/-! ### The Status -/

/-- The program returns an error, or leaves the exception. -/
abbrev KeepsException (e : BitVec 32) (m : Prog (Ctx W) Fault (Int × Status)) : Prop :=
  Returns (fun a => a.1 = STATUS_OK → a.2.mException = e) m

theorem failWith.keeps {e : BitVec 32} {status : Int} (hne : status ≠ STATUS_OK) :
    KeepsException e (Status.failWith st status : Prog (Ctx W) Fault _) :=
  .pure fun h => absurd h hne

theorem skipBlock.keeps {e : BitVec 32} {always : Bool} {next : Prog (Ctx W) Fault (Int × Status)}
    (h : KeepsException e next) : KeepsException e (Status.skipBlock always st next) :=
  .after fun _ => .after fun _ => .ite failWith.keeps fun _ => .after fun _ => h

theorem readDetails.keeps : KeepsException st.mException
    (Status.readDetails st : Prog (Ctx W) Fault _) :=
  .ite (fun _ => .after fun _ => .ite failWith.keeps fun _ => .pure fun _ => rfl) fun _ =>
    .ite (fun _ => skipBlock.keeps (.pure fun _ => rfl)) fun _ => .pure fun _ => rfl

theorem readException.keeps : KeepsException st.mException
    (Status.readException st : Prog (Ctx W) Fault _) :=
  .after fun _ => .after fun _ => .ite failWith.keeps fun _ => .after fun _ =>
    skipBlock.keeps readDetails.keeps

theorem readInt32.arrived {Q : Int × BitVec 32 → Ctx W → Prop} {pArg : BitVec 32}
    (h : Arrived word c.parcel) (hQ : Q (STATUS_OK, word) (c.mapParcel (Parcel.skip 4))) :
    wp (readInt32 pArg) Q E c := by
  have hsize := h.size
  rw [readInt32.spec h.readable, h.pos, if_pos (by omega), h.first,
    bytesWord_wordBytes (by rfl)]
  exact hQ

/-- The client takes a reply without exception for success. -/
theorem readAdded.none (h : Arrived EX_NONE c.parcel) :
    wp (BpAIDLServiceManager.readAdded st) (fun st' _ => st'.mException = EX_NONE) E c := by
  unfold BpAIDLServiceManager.readAdded Status.readFromParcel
  rw [wp_bind, wp_bind]
  refine readInt32.arrived h ?_
  dsimp only
  rw [if_neg (by simp), if_neg (by decide), if_pos rfl, wp_pure]
  rfl

theorem readAdded.thrown (h : Arrived EX_NULL_POINTER c.parcel) :
    wp (BpAIDLServiceManager.readAdded st) (fun st' _ => st'.mException ≠ EX_NONE)
      (fun _ => True) c := by
  unfold BpAIDLServiceManager.readAdded Status.readFromParcel
  rw [wp_bind, wp_bind]
  refine readInt32.arrived h ?_
  dsimp only
  rw [if_neg (by simp), if_neg (by decide), if_neg (by decide)]
  refine wp_imp (readException.keeps _) ?_
  rintro ⟨status, st'⟩ c' hkept
  dsimp only
  rw [wp_ite, wp_pure]
  refine ⟨fun hne => ?_, fun hok => ?_⟩
  · unfold Status.setFromStatusT
    rw [if_neg hne]
    have hfailed : EX_TRANSACTION_FAILED ≠ EX_NONE := by decide
    exact hfailed
  · have he : st'.mException = EX_NULL_POINTER := hkept (not_not.mp hok)
    rw [he, if_pos (by decide), wp_pure, he]
    decide

end Client

/-! ## There and back -/

namespace Driver

open Request

variable {S C : Type} (d : Driver S C) (n : BnAIDLServiceManager S)
  (p : BpAIDLServiceManager (Peers S C))

/-- The request arrives as `r`, and the server refuses the service. -/
def RefusesAt (r : Request (Peers S C)) : Prop :=
  n.Refuses (d.arrival r.aidl_data r.world) r.world.serverHeap r.world.server

/-- What the client has of an answer: no exception wherever `addService` was called. -/
def Heard (refused : Prop) (status : Int) (reply : Parcel) (added : Option Int) : Prop :=
  match added with
  | none => ¬refused ∧ ((status = STATUS_OK ∧ Arrived EX_NULL_POINTER reply) ∨
      (status ≠ STATUS_OK ∧ status ≠ STATUS_UNKNOWN_TRANSACTION))
  | some err => (err = STATUS_OK ↔ ¬refused) ∧ status = STATUS_OK ∧ Arrived EX_NONE reply

variable {d n p} {r : Request (Peers S C)}

theorem receive.heard {x : Outside (Peers S C)} {sent : Sent} {added : Option Int} {refused : Prop}
    {c : Ctx (Peers S C)} {E : Fault → Prop} (hempty : c.parcel = Parcel.empty)
    (h : BnAIDLServiceManager.Tells refused sent added) :
    wp (d.receive x sent) (fun status c' => Heard refused status c'.parcel added) E c := by
  cases added with
  | some err =>
    obtain ⟨herr, hsaid⟩ := h
    exact wp_imp (receive.arrived hempty hsaid) fun status c' hreply => ⟨herr, hreply⟩
  | none =>
    obtain ⟨hno, hsaid | ⟨err, rfl, hne, hunknown⟩⟩ := h
    · exact wp_imp (receive.arrived hempty hsaid) fun status c' hreply => ⟨hno, .inl hreply⟩
    · unfold receive
      dsimp only
      rw [if_pos hne]
      exact ⟨hno, .inr ⟨hne, hunknown⟩⟩

theorem carry.spec {x : Outside (Peers S C)} (hempty : r.aidl_reply = Parcel.empty)
    (ha : Parcel.Ample r.world.serverHeap) :
    wp (d.carry n x) (fun answer r' => Heard (d.RefusesAt n r) answer.1 r'.aidl_reply answer.2)
      (fun _ => ¬d.RefusesAt n r) r := by
  unfold carry onReply
  rw [wp_bind]
  have hserver : wp (d.onServer n.serve) (fun answer r' => r'.aidl_reply = Parcel.empty ∧
      BnAIDLServiceManager.Tells (d.RefusesAt n r) answer.1 answer.2)
      (fun _ => ¬d.RefusesAt n r) r := by
    unfold wp onServer
    rw [← wp, wp_zoom]
    exact wp_imp (BnAIDLServiceManager.serve.spec ha) fun answer q h => ⟨hempty, h⟩
  refine wp_imp hserver fun answer r₁ ⟨hreply, htells⟩ => ?_
  rw [wp_bind, wp_zoom]
  exact wp_imp (receive.heard hreply htells) fun status c' h => h

/-- The reply is empty until the remote binder answers. -/
theorem writeRequest.reply (arguments : Prog (Ctx (Peers S C)) Fault Int) :
    wp (p.writeRequest arguments) (fun _ r' => r'.aidl_reply = Parcel.empty) (fun _ => True) r := by
  unfold BpAIDLServiceManager.writeRequest onData onReply onWorld Parcel.initState
  rw [wp_bind, wp_zoom, wp_update, wp_bind, wp_zoom, wp_update, wp_bind, wp_zoom]
  refine wp_of_all (fun _ w => ?_) fun _ => trivial
  rw [wp_zoom]
  exact wp_of_all (fun _ _ => rfl) fun _ => trivial

/-- A request that is written leaves what its arguments and the reference on the remote leave. -/
theorem writeRequest.leaves {K : Type} {g : Peers S C → K} (hstrong : LeavesPart g p.remoteStrong)
    {arguments : Prog (Ctx (Peers S C)) Fault Int} (h : Parcel.WritesLeaving g arguments)
    (r : Request (Peers S C)) :
    wp (p.writeRequest arguments) (fun _ r' => g r'.world = g r.world) (fun _ => True) r := by
  unfold BpAIDLServiceManager.writeRequest onData onReply onWorld Parcel.initState
  rw [wp_bind, wp_zoom, wp_update, wp_bind, wp_zoom, wp_update, wp_bind, wp_zoom]
  refine wp_imp (hstrong r.world) fun _ w hw => ?_
  rw [wp_zoom]
  refine wp_imp (BpAIDLServiceManager.writeToken_leaves (p := p) h ⟨Parcel.empty, r.heap, w⟩)
    fun _ c hc => ?_
  exact (hc Parcel.empty_local).2.trans hw

/-- What the client reports once it has its answer. -/
theorem Heard.reports {st : Status} {status : Int} {added : Option Int} {refused : Prop}
    (h : Heard refused status r.aidl_reply added) : status ≠ STATUS_UNKNOWN_TRANSACTION ∧
      wp (if status ≠ STATUS_OK then pure (st.setFromStatusT status)
        else onReply (BpAIDLServiceManager.readAdded st))
      (fun st' _ => st'.mException = EX_NONE ↔ added ≠ none) (fun _ => added = none) r := by
  unfold onReply
  rw [wp_ite, wp_pure, wp_zoom]
  cases added with
  | some err =>
    obtain ⟨-, rfl, harrived⟩ := h
    refine ⟨by decide, fun hne => absurd rfl hne, fun _ => ?_⟩
    exact wp_imp (readAdded.none harrived) fun st' _ hnone => iff_of_true hnone (by simp)
  | none =>
    have hknown : status ≠ STATUS_UNKNOWN_TRANSACTION := by
      obtain ⟨-, ⟨rfl, -⟩ | ⟨-, hunknown⟩⟩ := h
      · decide
      · exact hunknown
    refine ⟨hknown, fun hne => ?_, fun hok => ?_⟩
    · unfold Status.setFromStatusT
      rw [if_neg hne]
      simp [EX_TRANSACTION_FAILED, EX_NONE]
    · obtain ⟨-, ⟨-, harrived⟩ | ⟨hne, -⟩⟩ := h
      · exact wp_mono (readAdded.thrown harrived) (fun st' _ hthrown => by simpa using hthrown)
          fun _ _ => rfl
      · exact absurd hne hok

end Driver

/-! ## The law -/

/-- A request of a client to add a service. -/
structure AddRequest where
  name : BinderString
  service : BitVec 64
  allowIsolated : Bool
  dumpPriority : BitVec 32
  aidl_status : Status

namespace Driver

open Request

variable {S C : Type} (d : Driver S C) (n : BnAIDLServiceManager S)
  (p : BpAIDLServiceManager (Peers S C)) (o : AddRequest) (r : Request (Peers S C))

/-- The request as it leaves the client. -/
def Leaves (r₁ : Request (Peers S C)) : Prop :=
  (d.client n p).writeRequest ((d.client n p).writeService o.name o.service o.allowIsolated
    o.dumpPriority) r = .ok (STATUS_OK, r₁)

/-- `ServiceManager_addService` returns `STATUS_OK` for the request. -/
def Added : Prop :=
  ∃ r₁ status r₂, d.Leaves n p o r r₁ ∧ d.carry n p.calls.toOutside r₁ =
    .ok ((status, some STATUS_OK), r₂)

/-- The arguments of the request arrive, and the server refuses them: the binder is NULL, the name
is not valid, or the binder is a proxy whose death cannot be watched. -/
def Refuses : Prop := ∃ r₁, d.Leaves n p o r r₁ ∧ d.RefusesAt n r₁

/-- If the client gets an answer, it reports success for exactly what was added. -/
def Reports : Prop :=
  ∀ st r', (d.client n p).addService o.name o.service o.allowIsolated o.dumpPriority o.aidl_status
    r = .ok (st, r') → (st.mException = EX_NONE ↔ d.Added n p o r)

variable {d n p o r}

theorem refuses_iff {r₁ : Request (Peers S C)} (h : d.Leaves n p o r r₁) :
    d.Refuses n p o r ↔ d.RefusesAt n r₁ := by
  constructor
  · rintro ⟨r₁', h', hrefuses⟩
    have hsame : Except.ok (ε := Fault) (STATUS_OK, r₁) = .ok (STATUS_OK, r₁') := h.symm.trans h'
    cases hsame
    exact hrefuses
  · exact fun hrefuses => ⟨r₁, h, hrefuses⟩

theorem added_iff {r₁ r₂ : Request (Peers S C)} {status : Int} {added : Option Int}
    (h : d.Leaves n p o r r₁)
    (hcarry : d.carry n p.calls.toOutside r₁ = .ok ((status, added), r₂)) :
    d.Added n p o r ↔ added = some STATUS_OK := by
  constructor
  · rintro ⟨r₁', status', r₂', h', hcarry'⟩
    have hsame : Except.ok (ε := Fault) (STATUS_OK, r₁) = .ok (STATUS_OK, r₁') := h.symm.trans h'
    cases hsame
    rw [hcarry] at hcarry'
    cases hcarry'
    rfl
  · rintro rfl
    exact ⟨r₁, status, r₂, h, hcarry⟩

/-- A request that leaves the client runs on where the driver carries it. -/
theorem wp_addService {Q : Status → Request (Peers S C) → Prop} {E : Fault → Prop}
    {r₁ : Request (Peers S C)} (hremote : p.mRemote ≠ 0) (h : d.Leaves n p o r r₁)
    (hcarry : wp (d.carry n p.calls.toOutside) (fun answer r₂ =>
      answer.1 ≠ STATUS_UNKNOWN_TRANSACTION ∧
        wp (if answer.1 ≠ STATUS_OK then pure (o.aidl_status.setFromStatusT answer.1)
          else onReply (BpAIDLServiceManager.readAdded o.aidl_status)) Q E r₂) E r₁) :
    wp ((d.client n p).addService o.name o.service o.allowIsolated o.dumpPriority o.aidl_status)
      Q E r := by
  have hthere : (d.client n p).mRemote ≠ 0 := hremote
  have hcarried : (d.client n p).transact TRANSACTION_addService = (do
      let answer ← d.carry n p.calls.toOutside
      pure answer.1) := by
    unfold client
    dsimp only
    rw [if_pos rfl]
  unfold BpAIDLServiceManager.addService BpAIDLServiceManager.request
    BpAIDLServiceManager.transactRemote
  rw [wp_bind, wp_of_ok h]
  dsimp only
  rw [if_neg (by simp), wp_bind, if_neg hthere, hcarried, wp_bind]
  refine wp_imp hcarry fun answer r₂ ⟨hknown, hrest⟩ => ?_
  rw [wp_pure, wp_bind, BpAIDLServiceManager.wp_standIn, if_neg hknown]
  exact hrest

/-- The client is told the truth about exactly the services that the server does not refuse. -/
theorem the_client_learns_of_no_refusal (d : Driver S C) (n : BnAIDLServiceManager S)
    (p : BpAIDLServiceManager (Peers S C)) (o : AddRequest) (r : Request (Peers S C))
    (hremote : p.mRemote ≠ 0)
    (hmemory : ∀ r₁, d.Leaves n p o r r₁ → Parcel.Ample r₁.world.serverHeap) :
    d.Reports n p o r ↔ ¬d.Refuses n p o r := by
  by_cases hleaves : ∃ r₁, d.Leaves n p o r r₁
  swap
  · -- the request is not written, and the client reports that
    have hnone : ¬d.Refuses n p o r := fun ⟨r₁, h, _⟩ => hleaves ⟨r₁, h⟩
    refine iff_of_true (fun st r' hrun => ?_) hnone
    have hadded : ¬d.Added n p o r := fun ⟨r₁, _, _, h, _⟩ => hleaves ⟨r₁, h⟩
    refine iff_of_false ?_ hadded
    have hfails : wp ((d.client n p).addService o.name o.service o.allowIsolated o.dumpPriority
        o.aidl_status) (fun st _ => st.mException ≠ EX_NONE) (fun _ => True) r := by
      unfold BpAIDLServiceManager.addService BpAIDLServiceManager.request
      rw [wp_bind]
      refine wp_of_result (fun status r₁ hwritten => ?_) fun _ _ => trivial
      have hne : status ≠ STATUS_OK := by
        rintro rfl
        exact hleaves ⟨r₁, hwritten⟩
      rw [if_pos hne, wp_pure]
      unfold Status.setFromStatusT
      rw [if_neg hne]
      simp [EX_TRANSACTION_FAILED, EX_NONE]
    exact hfails.of_ok hrun
  · obtain ⟨r₁, hleaves⟩ := hleaves
    have hempty : r₁.aidl_reply = Parcel.empty := (writeRequest.reply _).of_ok hleaves
    have hspec := carry.spec (d := d) (n := n) (x := p.calls.toOutside) hempty (hmemory r₁ hleaves)
    rw [refuses_iff hleaves]
    cases hcarry : d.carry n p.calls.toOutside r₁ with
    | error e =>
      refine iff_of_true (fun st r' hrun => ?_) ((wp_of_error hcarry).mp hspec)
      have hno : wp ((d.client n p).addService o.name o.service o.allowIsolated o.dumpPriority
          o.aidl_status) (fun _ _ => False) (fun _ => True) r := by
        refine wp_addService hremote hleaves ?_
        rw [wp_of_error hcarry]
        trivial
      exact (hno.of_ok hrun).elim
    | ok result =>
      obtain ⟨⟨status, added⟩, r₂⟩ := result
      have hheard : Heard (d.RefusesAt n r₁) status r₂.aidl_reply added := hspec.of_ok hcarry
      have hrest : wp ((d.client n p).addService o.name o.service o.allowIsolated o.dumpPriority
          o.aidl_status) (fun st _ => st.mException = EX_NONE ↔ added ≠ none)
          (fun _ => added = none) r := by
        refine wp_addService hremote hleaves ?_
        rw [wp_of_ok hcarry]
        exact hheard.reports
      have hadded := added_iff hleaves hcarry
      cases added with
      | none =>
        refine iff_of_true (fun st r' hrun => ?_) hheard.1
        rw [hrest.of_ok hrun, hadded]
        simp
      | some err =>
        obtain ⟨st, r', hrun, htold⟩ := wp_never_iff.mp
          (wp_mono hrest (fun _ _ h => h) fun _ h => by cases h)
        have hnone : st.mException = EX_NONE := htold.mpr (by simp)
        rw [← hheard.1]
        constructor
        · intro hreports
          simpa using hadded.mp ((hreports st r' hrun).mp hnone)
        · intro herr st' r'' hrun'
          rw [hrest.of_ok hrun', hadded, herr]
          simp

/-- Functions of a process whose binders are all local. -/
def plainCalls (W : Type) : Calls W where
  incStrong := fun _ => pure ()
  decStrong := fun _ => pure ()
  getStrongProxyForHandle := fun _ => pure 0
  close := fun _ => pure ()
  freeBuffer := fun _ => pure ()
  thread := fun _ => ⟨none, 0, none, 0, 0, 0, 0, false⟩
  putThread := fun _ w => w
  backgroundSchedulingDisabled := pure false
  getInterfaceDescriptor := fun _ => pure Parcel.hi
  localBinder := fun binder => pure binder
  remoteBinder := fun _ => pure 0
  mStability := fun _ => pure 0b001100
  putStability := fun _ _ => pure ()
  setParceled := fun _ => pure ()
  getMinSchedulerPolicy := fun _ => pure 0
  getMinSchedulerPriority := fun _ => pure 0
  isRequestingSid := fun _ => pure false
  isInheritRt := fun _ => pure false
  getWeakRefs := fun binder => pure binder
  incStrongRequireStrong := fun _ => pure ()
  binderHandle := fun _ => pure 0

/-- A client of the service manager. -/
def plainClient : BpAIDLServiceManager (Peers Unit WeakrefImpl) where
  calls := plainCalls _
  mRemote := 0x1000
  remoteRefs :=
    { refs := Peers.client
      putRefs := fun r w => { w with client := r }
      refs_put := fun _ _ => rfl
      put_put := fun _ _ _ => rfl
      put_refs := fun _ => rfl
      onFirstRef := pure ()
      onLastStrongRef := pure ()
      onIncStrongAttempted := pure true
      onLastWeakRef := pure () }
  interfaceDescriptor := Parcel.hi
  transact := fun _ => pure STATUS_DEAD_OBJECT
  defaultImpl := fun _ => none

/-- The service manager of the same process. -/
def plainServer : BnAIDLServiceManager Unit where
  calls := plainCalls _
  services := ⟨pure 1, fun _ => pure 0, fun _ => pure STATUS_OK, fun _ _ _ => pure ()⟩
  this := 0x1000
  nameAt := 1

def plainDriver : Driver Unit WeakrefImpl := ⟨fun data _ => data, 0x5000⟩

/-- A binder is added under a name. -/
def adding (name : BinderString) : AddRequest := ⟨name, 0x2000, false, 0, ⟨EX_NONE, 0, Parcel.hi⟩⟩

def starting : Request (Peers Unit WeakrefImpl) :=
  ⟨Parcel.empty, Parcel.empty, Parcel.plenty,
    ⟨ServiceManager.ctor (fun _ => Parcel.hi) (fun _ => true) (), Parcel.plenty,
      ⟨1, 1, OBJECT_LIFETIME_WEAK⟩⟩⟩

theorem plainCalls_leave {W K : Type} (g : W → K) : CallsLeave g (plainCalls W) where
  incStrong _ := part_frame.pure _
  incStrongRequireStrong _ := part_frame.pure _
  getStrongProxyForHandle _ := part_frame.pure _
  backgroundSchedulingDisabled := part_frame.pure _
  localBinder _ := part_frame.pure _
  remoteBinder _ := part_frame.pure _
  mStability _ := part_frame.pure _
  putStability _ _ := part_frame.pure _
  setParceled _ := part_frame.pure _
  getMinSchedulerPolicy _ := part_frame.pure _
  getMinSchedulerPriority _ := part_frame.pure _
  isRequestingSid _ := part_frame.pure _
  isInheritRt _ := part_frame.pure _
  getWeakRefs _ := part_frame.pure _
  binderHandle _ := part_frame.pure _

/-- The plain client leaves the memory of the server. -/
theorem plainClient_ample {d : Driver Unit WeakrefImpl} {n : BnAIDLServiceManager Unit}
    {o : AddRequest} {r r₁ : Request (Peers Unit WeakrefImpl)}
    (h : d.Leaves n plainClient o r r₁) (ha : Parcel.Ample r.world.serverHeap) :
    Parcel.Ample r₁.world.serverHeap := by
  have hstrong : LeavesPart Peers.serverHeap (d.client n plainClient).remoteStrong := by
    intro w
    unfold BpAIDLServiceManager.remoteStrong RefBase.incStrongRequireStrong RefBase.incWeak
    simp only [wp_bind, RefBase.wp_fetchAddWeak, RefBase.wp_fetchAddStrong, wp_ite, wp_fault,
      wp_pure, implies_true, true_and]
    exact ⟨fun _ _ _ => rfl, trivial⟩
  have hkept := writeRequest.leaves hstrong (BpAIDLServiceManager.writeService_leaves
    (p := d.client n plainClient) (plainCalls_leave Peers.serverHeap) o.name o.service
    o.allowIsolated o.dumpPriority) r
  rw [hkept.of_ok h]
  exact ha

theorem hi_is_reported : plainDriver.Reports plainServer plainClient (adding Parcel.hi) starting ↔
    ¬plainDriver.Refuses plainServer plainClient (adding Parcel.hi) starting :=
  the_client_learns_of_no_refusal _ _ _ _ _ (by decide)
    fun _ h => plainClient_ample h (by intro r; simp [starting, Parcel.plenty])

/-- What `addService` returned, read off one run of the request. -/
theorem not_added {S C : Type} {d : Driver S C} {n : BnAIDLServiceManager S}
    {p : BpAIDLServiceManager (Peers S C)} {o : AddRequest} {r : Request (Peers S C)}
    (h : wp (do
        let _ ← (d.client n p).writeRequest ((d.client n p).writeService o.name o.service
          o.allowIsolated o.dumpPriority)
        let answer ← d.carry n p.calls.toOutside
        pure answer.2) (fun added _ => added ≠ some STATUS_OK) never r) : ¬d.Added n p o r := by
  rintro ⟨r₁, status, r₂, hleaves, hcarry⟩
  rw [wp_bind, wp_of_ok hleaves, wp_bind, wp_of_ok hcarry] at h
  exact h rfl

/-- A name that is not valid. -/
def question : BinderString := Parcel.hi.init (some [63])

/-- A service with a name that is not valid is refused, and reported as added. -/
theorem a_refusal_is_reported_as_success :
    ¬plainDriver.Reports plainServer plainClient (adding question) starting := by
  intro hreports
  obtain ⟨st, r', hrun, hnone⟩ : ∃ st r', (plainDriver.client plainServer plainClient).addService
      question 0x2000 false 0 ⟨EX_NONE, 0, Parcel.hi⟩ starting = .ok (st, r') ∧
      st.mException = EX_NONE := wp_never_iff.mp (by decide +kernel)
  have hrefused : ¬plainDriver.Added plainServer plainClient (adding question) starting :=
    not_added (by decide +kernel)
  exact hrefused ((hreports st r' hrun).mp hnone)

end Driver

end system_binder
