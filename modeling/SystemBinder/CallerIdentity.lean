-- For whom a thread works: whatever handlers, callbacks and nested transactions do, a handler finds
-- the caller of its own transaction, but for what was set since it began, and each transaction puts
-- back what it found.
import SystemBinder.ThreadLaws

open prog memory

namespace system_binder.IPCThread

variable {V : Type} {x : Env V} {s s' : IPCThread V} {E : Fault → Prop}

/-! ## Settings -/

/-- The thread state after some settings. -/
def settled (x : Env V) (settings : List Setting) (t : ThreadState) : ThreadState :=
  settings.foldl (Setting.apply x) t

theorem settled_append (l l' : List Setting) (t : ThreadState) :
    settled x (l ++ l') t = settled x l' (settled x l t) := List.foldl_append

/-- Whose transaction is served, and with which flags, is not set. -/
def Setting.leavesCaller : Setting → Bool
  | .setLastTransactionBinderFlags _ | .clearCaller => false
  | _ => true

/-- The transaction that the thread state belongs to. -/
structure SameCaller (t t' : ThreadState) : Prop where
  mCallingPid : t'.mCallingPid = t.mCallingPid
  mCallingSid : t'.mCallingSid = t.mCallingSid
  mCallingUid : t'.mCallingUid = t.mCallingUid
  mLastTransactionBinderFlags : t'.mLastTransactionBinderFlags = t.mLastTransactionBinderFlags

theorem SameCaller.refl (t : ThreadState) : SameCaller t t := ⟨rfl, rfl, rfl, rfl⟩

theorem Setting.sameCaller {setting : Setting} (h : setting.leavesCaller = true)
    (t : ThreadState) : SameCaller t (setting.apply x t) := by
  cases setting with
  | setLastTransactionBinderFlags flags => cases h
  | clearCaller => cases h
  | _ => exact ⟨rfl, rfl, rfl, rfl⟩

theorem settled_sameCaller {settings : List Setting}
    (h : ∀ setting ∈ settings, setting.leavesCaller = true) (t : ThreadState) :
    SameCaller t (settled x settings t) := by
  induction settings generalizing t with
  | nil => exact .refl t
  | cons setting settings ih =>
    have hfirst := Setting.sameCaller (x := x) (h setting List.mem_cons_self) t
    have hrest := ih (fun setting' hmem => h setting' (List.mem_cons_of_mem _ hmem))
      (setting.apply x t)
    exact ⟨hrest.1.trans hfirst.1, hrest.2.trans hfirst.2, hrest.3.trans hfirst.3,
      hrest.4.trans hfirst.4⟩

/-- No setting ends a transaction. -/
theorem settled_serving (settings : List Setting) (t : ThreadState) :
    (settled x settings t).mServingStackPointer = t.mServingStackPointer := by
  induction settings generalizing t with
  | nil => rfl
  | cons setting settings ih =>
    have hfirst : (setting.apply x t).mServingStackPointer = t.mServingStackPointer := by
      cases setting <;> rfl
    exact (ih _).trans hfirst

/-! ## The rules -/

/-- Since `orig` and `own` nothing has changed the thread state but what was set. -/
def SetSince (x : Env V) (since : ThreadState × List Setting) (s : IPCThread V) : Prop :=
  ∃ settings, s.own = since.2 ++ settings ∧ s.thread = settled x settings since.1

theorem SetSince.congr {since : ThreadState × List Setting} (hthread : s'.thread = s.thread)
    (hown : s'.own = s.own) (h : SetSince x since s) : SetSince x since s' := by
  unfold SetSince
  rw [hthread, hown]
  exact h

/-- Whatever code outside asks for, the driver sends and the thread writes. -/
def settingRules (x : Env V) : FreeRules x (ThreadState × List Setting) where
  Inv := SetSince x
  after := fun _ since => since
  after_none := fun _ => rfl
  congr := by
    intro since s s' hcore h
    exact h.congr (congrArg Core.thread hcore) (congrArg Core.own hcore)
  set := by
    rintro since s setting ⟨settings, hown, hthread⟩
    refine ⟨settings ++ [setting], ?_, ?_⟩
    · unfold assigned
      rw [hown, List.append_assoc]
    · rw [settled_append, ← hthread]
      rfl
  write := fun _ h => h
  take := fun h => h
  read := fun _ h => h
  mark := fun h => h

/-- A transaction is entered with nothing set. -/
theorem begun_setSince (d : Delivery) (s : IPCThread V) :
    SetSince x (serving x d.tr s.thread, []) (begun x d s) := ⟨[], rfl, rfl⟩

/-- What a transaction puts back is what it found. -/
theorem serve.puts_back {perform : Action → Prog (IPCThread V) Fault Answer} {turns : Nat}
    {onCommand : ReturnCommand → Prog (IPCThread V) Fault Int} (d : Delivery)
    (h : (settingRules x).rules.Performs perform) (hcommand : (settingRules x).rules.Executes onCommand) :
    wp (serve x perform turns onCommand d) (fun _ s' => s'.thread = s.thread ∧ s'.own = s.own)
      (fun _ => True) s := by
  unfold serve
  rw [wp_bind]
  refine wp_imp (refer.fresh x perform turns d) ?_
  rintro buffer _ ⟨-, heap, rfl⟩
  unfold update
  rw [wp_bind, wp_get, wp_bind, wp_modify, wp_bind]
  have hbegun := begun_setSince (x := x) d { s with heap := heap }
  refine wp_imp (h.acquireTarget d.tr _ _ hbegun) ?_
  rintro target s₁ ⟨-, hs₁⟩
  rw [wp_bind]
  refine wp_imp (h.handle d.tr buffer target _ _ hs₁) ?_
  rintro ⟨error, reply⟩ s₂ ⟨-, hs₂⟩
  rw [wp_bind]
  refine wp_imp (h.answer hcommand d.tr error reply _ _ hs₂) ?_
  intro _ s₃ _
  exact ⟨rfl, rfl⟩

theorem settingRules_serves : (settingRules x).rules.Serves := by
  intro perform turns onCommand d h hcommand since s hs
  refine wp_imp (serve.puts_back d h hcommand) ?_
  rintro _ s' ⟨hthread, hown⟩
  exact SetSince.congr hthread hown hs

/-- What a transaction puts back, whatever is between. -/
theorem executeCommand.puts_back (depth turns n : Nat) (d : Delivery) :
    wp (executeCommand x (knot x depth) turns n (.BR_TRANSACTION d))
      (fun _ s' => s'.thread = s.thread ∧ s'.own = s.own) (fun _ => True) s := by
  have hknot : (settingRules x).rules.Performs (knot x depth) := settingRules_serves.knot depth
  cases n with
  | zero => trivial
  | succ n =>
    have hcommand : (settingRules x).rules.Executes (executeCommand x (knot x depth) turns n) :=
      hknot.executeCommand settingRules_serves n
    unfold executeCommand carryOut execute
    rw [wp_bind, wp_bind, wp_bind]
    refine wp_imp (serve.puts_back d hknot hcommand) fun _ s' hs' => ?_
    exact hs'

/-! ## Where a handler comes -/

/-- A point that the handler of the transaction reaches, its calls until then being over. -/
def AtHandler (x : Env V) (depth turns : Nat) (d : Delivery) (s s' : IPCThread V) : Prop :=
  ∃ buffer s₁ bbinder s₂ code, refer x (knot x depth) turns d Parcel.empty s = .ok (buffer, s₁) ∧
    acquireTarget x (knot x depth) d.tr (begun x d s₁) = .ok (some bbinder, s₂) ∧
    Code.Reaches host (knot x depth) (handler x d.tr bbinder buffer) s₂ code s'

theorem AtHandler.thread_eq {depth turns : Nat} {d : Delivery} (h : AtHandler x depth turns d s s') :
    s'.thread = settled x s'.own (serving x d.tr s.thread) := by
  obtain ⟨buffer, s₁, bbinder, s₂, code, hbuffer, htarget, hreach⟩ := h
  have hknot : (settingRules x).rules.Performs (knot x depth) := settingRules_serves.knot depth
  have hthread : s₁.thread = s.thread := by
    obtain ⟨-, heap, rfl⟩ := (refer.fresh x (knot x depth) turns d).of_ok hbuffer
    rfl
  have hentered := ((hknot.acquireTarget d.tr _ _ (begun_setSince d s₁)).of_ok htarget).2
  obtain ⟨settings, hown, hs'⟩ : SetSince x (serving x d.tr s₁.thread, []) s' :=
    hreach.stays (fun _ _ _ h => h) hknot
      (Code.asks_all (fun _ => trivial) fun _ => trivial) hentered
  rw [List.nil_append] at hown
  rw [← hown, hthread] at hs'
  exact hs'

/-- The thread is serving. -/
theorem AtHandler.serves {depth turns : Nat} {d : Delivery} (h : AtHandler x depth turns d s s') :
    s'.thread.mServingStackPointer = some x.frameAddress := by
  rw [h.thread_eq, settled_serving]
  rfl

theorem AtHandler.flushes_nothing {depth turns : Nat} {d : Delivery}
    (h : AtHandler x depth turns d s s') :
    flushIfNeeded x (knot x depth) turns s' = .ok (false, s') := by
  have hbusy : s'.busy = true := by
    unfold busy
    rw [h.serves]
    simp
  unfold flushIfNeeded
  show (if s'.busy = true then pure false else _ : Prog (IPCThread V) Fault Bool) s' = _
  rw [if_pos hbusy]
  rfl

/-! ## The laws -/

/-- Whatever the handler, the code that it calls and the transactions nested in it do: when a
transaction returns, the thread works for whom it worked before. -/
theorem a_transaction_puts_the_caller_back (x : Env V) (depth turns n : Nat) (d : Delivery)
    (s : IPCThread V) :
    wp (executeCommand x (knot x depth) turns n (.BR_TRANSACTION d))
      (fun _ s' => s'.thread = s.thread ∧ s'.own = s.own) (fun _ => True) s :=
  executeCommand.puts_back depth turns n d

/-- Wherever a handler has come, after any calls of its own and any transactions nested in them: the
thread is busy with its transaction, so that nothing is flushed, and works for the caller of its
transaction, but for what was set since it began, outside of the nested ones. -/
theorem a_handler_finds_its_own_caller (x : Env V) (depth turns : Nat) (d : Delivery)
    (s s₁ s₂ s' : IPCThread V) (buffer : Parcel) (bbinder : BitVec 64)
    (code : Foreign V (Int × Parcel))
    (hbuffer : refer x (knot x depth) turns d Parcel.empty s = .ok (buffer, s₁))
    (htarget : acquireTarget x (knot x depth) d.tr (begun x d s₁) = .ok (some bbinder, s₂))
    (hreach : Code.Reaches host (knot x depth) (handler x d.tr bbinder buffer) s₂ code s') :
    s'.thread = settled x s'.own (serving x d.tr s.thread) ∧
      ((∀ setting ∈ s'.own, setting.leavesCaller = true) →
        SameCaller (serving x d.tr s.thread) s'.thread) ∧
      flushIfNeeded x (knot x depth) turns s' = .ok (false, s') := by
  have hat : AtHandler x depth turns d s s' :=
    ⟨buffer, s₁, bbinder, s₂, code, hbuffer, htarget, hreach⟩
  refine ⟨hat.thread_eq, fun hleaves => ?_, hat.flushes_nothing⟩
  rw [hat.thread_eq]
  exact settled_sameCaller hleaves _

/-- Every handler makes a call, and the call of the first is answered after another transaction. -/
def nesting : Env Unit :=
  scripted [[.BR_TRANSACTION (wordFrom 300), .BR_REPLY (wordFrom 0), .BR_TRANSACTION_COMPLETE,
    .BR_REPLY (wordFrom 0)]]
    (.call (.transact 1 2 Parcel.empty none 0) fun _ => .done (STATUS_OK, Parcel.empty))

/-- The handler for the process 200 is back from its call, in which a transaction of the process 300
was served. -/
theorem a_handler_finds_its_caller_after_a_nested_transaction :
    ∃ s' : IPCThread Unit, s'.executed = [.BR_TRANSACTION (wordFrom 300)] ∧
      s'.thread.mCallingPid = 200 := by
  have hrun : wp (do
      let _ ← refer nesting (knot nesting 5) 5 (wordFrom 200) Parcel.empty
      update (begun nesting (wordFrom 200))
      let target ← acquireTarget nesting (knot nesting 5) (wordFrom 200).tr
      let _ ← knot nesting 5 (.transact 1 2 Parcel.empty none 0)
      pure target) (fun target s' => target = some 64 ∧
        s'.executed = [.BR_TRANSACTION (wordFrom 300)] ∧ s'.own = [])
      never fresh := by decide +kernel
  rw [wp_bind, wp_never_iff] at hrun
  obtain ⟨buffer, s₁, hbuffer, hrun⟩ := hrun
  unfold update at hrun
  rw [wp_bind, wp_modify, wp_bind, wp_never_iff] at hrun
  obtain ⟨target, s₂, htarget, hrun⟩ := hrun
  rw [wp_bind, wp_never_iff] at hrun
  obtain ⟨answer, s', hcall, rfl, hexecuted, hown⟩ := hrun
  have hlaw := a_handler_finds_its_own_caller nesting 5 5 (wordFrom 200) fresh s₁ s₂ s' buffer 64 _
    hbuffer htarget (.call hcall .here)
  refine ⟨s', hexecuted, (hlaw.2.1 ?_).mCallingPid⟩
  rw [hown]
  intro setting hmem
  cases hmem

/-- The thread works for the caller of the transaction. -/
structure WorksFor (tr : TransactionData) (t : ThreadState) : Prop where
  mCallingPid : t.mCallingPid = tr.sender_pid
  mCallingSid : t.mCallingSid = some "SECCTX_TMP"
  mCallingUid : t.mCallingUid = tr.sender_euid
  mLastTransactionBinderFlags : t.mLastTransactionBinderFlags = tr.flags

/-- A handler that clears its caller. -/
def clearing : Env Unit :=
  scripted [] (.call (.set .clearCaller) fun _ => .done (STATUS_OK, Parcel.empty))

end system_binder.IPCThread
