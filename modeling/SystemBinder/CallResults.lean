-- How a call ends: one that waits for its answer with a reply that the thread itself took out of
-- `mIn`, or with an error that its reply parcel and the thread carry; one that does not wait with
-- the first command that says the driver has it.
import SystemBinder.Transactions

open prog memory

namespace system_binder.IPCThread

variable {V : Type} {x : Env V} {perform : Action → Prog (IPCThread V) Fault Answer} {turns n : Nat}
  {onCommand : ReturnCommand → Prog (IPCThread V) Fault Int} {s s' : IPCThread V}
  {E : Fault → Prop} {cmd : ReturnCommand} {taken : List ReturnCommand}

/-! ## Commands that end a call -/

def isReply : ReturnCommand → Bool
  | .BR_REPLY _ => true
  | _ => false

/-- The driver has the call. -/
def completes : ReturnCommand → Bool
  | .BR_ONEWAY_SPAM_SUSPECT | .BR_TRANSACTION_COMPLETE => true
  | _ => false

/-- The parcel is over the buffer that came with the reply, unless that is only a status. -/
def Brought (d : Delivery) (p : Parcel) : Prop :=
  d.tr.flags &&& TF_STATUS_CODE = 0 →
    Parcel.Delivered d.data d.tr.data_size d.objects (d.tr.offsets_size / 8) .freeBuffer p

/-- A call that waits for its answer goes on, or ends with an error, or with a reply. -/
def Verdict.AfterWait (cmd : ReturnCommand) : Verdict → Prop
  | .goesOn => isReply cmd = false
  | .ends err reply =>
    ∃ p, reply = some p ∧ (err = STATUS_OK → ∃ d, cmd = .BR_REPLY d ∧ Brought d p)

/-- A call that does not wait ends with the command that says that the driver has it, or with an
error. -/
def Verdict.AfterSend (cmd : ReturnCommand) : Verdict → Prop
  | .goesOn => completes cmd = false
  | .ends err _ => err = STATUS_OK ↔ completes cmd = true

/-- Nothing is asked of what is around a parcel. -/
theorem outsideKeeps_all (y : Outside (IPCThread V)) : Parcel.OutsideKeeps y fun _ _ => True where
  frame := ⟨fun _ => trivial, fun _ _ => trivial, fun _ _ => trivial⟩
  incStrong _ _ := wp_of_all (fun _ _ => trivial) fun _ => trivial
  decStrong _ _ := wp_of_all (fun _ _ => trivial) fun _ => trivial
  getStrongProxyForHandle _ _ := wp_of_all (fun _ _ => trivial) fun _ => trivial
  close _ _ := wp_of_all (fun _ _ => trivial) fun _ => trivial

theorem refer.delivers (d : Delivery) (p : Parcel) :
    wp (refer x perform turns d p) (fun p' _ => Brought d p') (fun _ => True) s := by
  unfold refer
  rw [wp_onParcel]
  apply wp_imp (Parcel.ipcSetDataReference.spec (outsideKeeps_all _) ?_)
  · rintro _ c ⟨-, hdelivered⟩
    exact fun _ => hdelivered
  · intro _ _
    exact wp_of_all (fun _ _ => trivial) fun _ => trivial

theorem respond.waits (p : Parcel) : wp (respond x perform turns onCommand (some p) cmd)
    (fun verdict _ => verdict.AfterWait cmd) (fun _ => True) s := by
  have hother : ∀ cmd, isReply cmd = false → wp (do
      let err ← onCommand cmd
      if err = STATUS_OK then pure Verdict.goesOn else pure (.ends err (some p)))
      (fun verdict _ => verdict.AfterWait cmd) (fun _ => True) s := by
    intro cmd hcmd
    rw [wp_bind]
    apply wp_of_all _ fun _ => trivial
    intro err s'
    rw [wp_ite]
    exact ⟨fun _ => hcmd, fun hne => ⟨p, rfl, fun h => absurd h hne⟩⟩
  cases cmd with
  | BR_REPLY d =>
    unfold respond takeReply
    rw [wp_ite, wp_bind, wp_bind]
    refine ⟨fun _ => ?_, fun hstatus => ?_⟩
    · apply wp_imp (refer.delivers d p)
      intro p' _ hbrought
      exact ⟨p', rfl, fun _ => ⟨d, rfl, hbrought⟩⟩
    · apply wp_of_all _ fun _ => trivial
      intro err s'
      rw [wp_bind]
      apply wp_of_all _ fun _ => trivial
      intro _ _
      exact ⟨p, rfl, fun _ => ⟨d, rfl, fun hnone => absurd hnone hstatus⟩⟩
  | BR_DEAD_REPLY => exact ⟨p, rfl, fun h => absurd h (by decide)⟩
  | BR_FAILED_REPLY => exact ⟨p, rfl, fun h => absurd h (by decide)⟩
  | BR_FROZEN_REPLY => exact ⟨p, rfl, fun h => absurd h (by decide)⟩
  | BR_ACQUIRE_RESULT => trivial
  | BR_ONEWAY_SPAM_SUSPECT => rfl
  | BR_TRANSACTION_COMPLETE => rfl
  | _ => exact hother _ rfl

theorem respond.sends : wp (respond x perform turns onCommand none cmd)
    (fun verdict _ => verdict.AfterSend cmd) (fun _ => True) s := by
  have hother : ∀ cmd, completes cmd = false → wp (do
      let err ← onCommand cmd
      if err = STATUS_OK then pure Verdict.goesOn else pure (.ends err none))
      (fun verdict _ => verdict.AfterSend cmd) (fun _ => True) s := by
    intro cmd hcmd
    rw [wp_bind]
    apply wp_of_all _ fun _ => trivial
    intro err s'
    rw [wp_ite]
    refine ⟨fun _ => hcmd, fun hne => ?_⟩
    simp [Verdict.AfterSend, hne, hcmd]
  cases cmd with
  | BR_REPLY d =>
    unfold respond takeReply
    rw [wp_bind]
    exact wp_of_all (fun _ _ => rfl) fun _ => trivial
  | BR_DEAD_REPLY => exact ⟨fun h => absurd h (by decide), fun h => by cases h⟩
  | BR_FAILED_REPLY => exact ⟨fun h => absurd h (by decide), fun h => by cases h⟩
  | BR_FROZEN_REPLY => exact ⟨fun h => absurd h (by decide), fun h => by cases h⟩
  | BR_ACQUIRE_RESULT => trivial
  | BR_ONEWAY_SPAM_SUSPECT => exact ⟨fun _ => rfl, fun _ => rfl⟩
  | BR_TRANSACTION_COMPLETE => exact ⟨fun _ => rfl, fun _ => rfl⟩
  | _ => exact hother _ rfl

/-! ## The loop -/

/-- How a call that waits for its answer ends, after the commands of `taken`. -/
structure Answered (taken : List ReturnCommand) (r : Response) (s' : IPCThread V) : Prop where
  replied : r.err = STATUS_OK → ∃ before d p, r.taken = taken ++ before ++ [.BR_REPLY d] ∧
    (∀ cmd ∈ before, isReply cmd = false) ∧ r.reply = some p ∧ Brought d p
  failed : r.err ≠ STATUS_OK → s'.mLastError = r.err ∧ ∃ p, r.reply = some p ∧ p.mError = r.err

/-- How a call that does not wait ends, after the commands of `taken`. -/
structure Sent (taken : List ReturnCommand) (r : Response) : Prop where
  completed : r.err = STATUS_OK → ∃ before last, r.taken = taken ++ before ++ [last] ∧
    (∀ cmd ∈ before, completes cmd = false) ∧ completes last = true
  failed : r.err ≠ STATUS_OK → ∃ before, r.taken = taken ++ before ∧
    ∀ cmd ∈ before, completes cmd = false

theorem finish.failed {err : Int} {p : Parcel} (herr : err ≠ STATUS_OK) :
    wp (finish err (some p) taken) (fun r s' => r.err = err ∧ r.taken = taken ∧
      s'.mLastError = err ∧ ∃ q, r.reply = some q ∧ q.mError = err) E s := by
  unfold finish
  rw [if_neg herr]
  exact ⟨rfl, rfl, rfl, withError err p, rfl, rfl⟩

theorem finish.err {err : Int} {reply : Option Parcel} :
    wp (finish err reply taken) (fun r _ => r.err = err ∧ r.taken = taken ∧
      (err = STATUS_OK → r.reply = reply)) E (s : IPCThread V) := by
  unfold finish
  split
  · exact ⟨rfl, rfl, fun _ => rfl⟩
  · rename_i hne
    exact ⟨rfl, rfl, fun h => absurd h hne⟩

/-- One more command that does not end the wait. -/
theorem Answered.later {r : Response} (hcmd : isReply cmd = false)
    (h : Answered (taken ++ [cmd]) r s') : Answered taken r s' where
  replied hok := by
    obtain ⟨before, d, p, htaken, hbefore, hreply, hbrought⟩ := h.replied hok
    refine ⟨cmd :: before, d, p, ?_, ?_, hreply, hbrought⟩
    · rw [htaken]
      simp
    · intro c hc
      rcases List.mem_cons.mp hc with rfl | hc
      · exact hcmd
      · exact hbefore c hc
  failed := h.failed

theorem Sent.later {r : Response} (hcmd : completes cmd = false)
    (h : Sent (taken ++ [cmd]) r) : Sent taken r := by
  have hall : ∀ before : List ReturnCommand, (∀ c ∈ before, completes c = false) →
      ∀ c ∈ cmd :: before, completes c = false := by
    intro before hbefore c hc
    rcases List.mem_cons.mp hc with rfl | hc
    · exact hcmd
    · exact hbefore c hc
  refine ⟨fun hok => ?_, fun hne => ?_⟩
  · obtain ⟨before, last, htaken, hbefore, hlast⟩ := h.completed hok
    refine ⟨cmd :: before, last, ?_, hall before hbefore, hlast⟩
    rw [htaken]
    simp
  · obtain ⟨before, htaken, hbefore⟩ := h.failed hne
    refine ⟨cmd :: before, ?_, hall before hbefore⟩
    rw [htaken]
    simp

/-- An error of the driver is no command. -/
theorem waitFrom.answered {p : Parcel} :
    wp (waitFrom x perform turns onCommand (some p) n taken) (fun r s' => Answered taken r s')
      (fun _ => True) s := by
  induction n generalizing taken s with
  | zero => trivial
  | succ n ih =>
    unfold waitFrom
    rw [wp_bind]
    apply wp_of_all _ fun _ => trivial
    intro err s₁
    split
    · rename_i hnegative
      have herr : err ≠ STATUS_OK := ne_of_lt hnegative
      apply wp_imp (finish.failed herr)
      rintro r s' ⟨hr, -, hlast, q, hq, hqerr⟩
      rw [← hr] at herr hlast hqerr
      exact ⟨fun h => absurd h herr, fun _ => ⟨hlast, q, hq, hqerr⟩⟩
    · rw [wp_bind, wp_get]
      split
      · exact ih
      · rename_i cmd rest _
        unfold update
        rw [wp_bind, wp_modify, wp_bind]
        apply wp_imp (respond.waits p)
        intro verdict s₂ hverdict
        cases verdict with
        | goesOn => exact wp_imp ih fun r s' h => h.later hverdict
        | ends err reply =>
          obtain ⟨q, rfl, hreply⟩ := hverdict
          by_cases herr : err = STATUS_OK
          · obtain ⟨d, rfl, hbrought⟩ := hreply herr
            apply wp_imp finish.err
            rintro r s' ⟨hr, htaken, hq⟩
            refine ⟨fun _ => ⟨[], d, q, ?_, ?_, hq herr, hbrought⟩, fun h => ?_⟩
            · rw [htaken, List.append_nil]
            · intro c hc
              cases hc
            · rw [hr] at h
              exact absurd herr h
          · apply wp_imp (finish.failed herr)
            rintro r s' ⟨hr, -, hlast, q', hq, hqerr⟩
            rw [← hr] at herr hlast hqerr
            exact ⟨fun h => absurd h herr, fun _ => ⟨hlast, q', hq, hqerr⟩⟩

theorem waitFrom.sent :
    wp (waitFrom x perform turns onCommand none n taken) (fun r _ => Sent taken r)
      (fun _ => True) s := by
  induction n generalizing taken s with
  | zero => trivial
  | succ n ih =>
    unfold waitFrom
    rw [wp_bind]
    apply wp_of_all _ fun _ => trivial
    intro err s₁
    split
    · rename_i hnegative
      have herr : err ≠ STATUS_OK := ne_of_lt hnegative
      apply wp_imp finish.err
      rintro r s' ⟨hr, htaken, -⟩
      rw [← hr] at herr
      refine ⟨fun h => absurd h herr, fun _ => ⟨[], ?_, ?_⟩⟩
      · rw [htaken, List.append_nil]
      · intro c hc
        cases hc
    · rw [wp_bind, wp_get]
      split
      · exact ih
      · rename_i cmd rest _
        unfold update
        rw [wp_bind, wp_modify, wp_bind]
        apply wp_imp respond.sends
        intro verdict s₂ hverdict
        cases verdict with
        | goesOn => exact wp_imp ih fun r s' h => h.later hverdict
        | ends err reply =>
          apply wp_imp finish.err
          rintro r s' ⟨hr, htaken, -⟩
          refine ⟨fun h => ⟨[], cmd, ?_, ?_, ?_⟩, fun h => ⟨[cmd], htaken, ?_⟩⟩
          · rw [htaken, List.append_nil]
          · intro c hc
            cases hc
          · rw [hr] at h
            exact hverdict.mp h
          · intro c hc
            rw [hr] at h
            rw [List.mem_singleton.mp hc]
            exact Bool.not_eq_true _ ▸ fun hc => h (hverdict.mpr hc)

/-! ## Calls -/

theorem twoWay_accept_fds (flags : BitVec 32) :
    twoWay (flags ||| TF_ACCEPT_FDS) = twoWay flags := by
  have hbit : (flags ||| TF_ACCEPT_FDS) &&& TF_ONE_WAY = flags &&& TF_ONE_WAY := by
    rw [BitVec.and_or_distrib_right]
    have hapart : TF_ACCEPT_FDS &&& TF_ONE_WAY = 0#32 := by decide
    rw [hapart, BitVec.or_zero]
  unfold twoWay
  rw [hbit]

/-- How `transact` ends where it waits for its answer. -/
structure Replied (reply : Option Parcel) (r : Response) (s' : IPCThread V) : Prop where
  replied : r.err = STATUS_OK → ∃ before d p, r.taken = before ++ [.BR_REPLY d] ∧
    (∀ cmd ∈ before, isReply cmd = false) ∧ Brought d p ∧ (reply.isSome = true → r.reply = some p)
  failed : r.err ≠ STATUS_OK → s'.mLastError = r.err ∧
    (reply.isSome = true → ∃ p, r.reply = some p ∧ p.mError = r.err)

theorem transact.replied (depth : Nat) (handle code : BitVec 32) (data : Parcel)
    (reply : Option Parcel) {flags : BitVec 32} (hflags : twoWay flags = true) :
    wp (transact x (knot x depth) turns handle code data reply flags)
      (fun r s' => Replied reply r s') (fun _ => True) s := by
  unfold transact
  rw [wp_bind]
  apply wp_of_all _ fun _ => trivial
  intro err s₁
  split
  · rename_i herr
    unfold update
    rw [wp_bind, wp_modify, wp_pure]
    refine ⟨fun h => absurd h herr, fun _ => ⟨rfl, fun hsome => ?_⟩⟩
    obtain ⟨p, rfl⟩ := Option.isSome_iff_exists.mp hsome
    exact ⟨withError err p, rfl, rfl⟩
  · rw [twoWay_accept_fds, if_pos hflags, wp_bind, wp_get]
    split
    · trivial
    · rw [wp_bind]
      apply wp_imp waitFrom.answered
      intro r s' h
      refine ⟨fun hok => ?_, fun hne => ?_⟩
      · obtain ⟨before, d, p, htaken, hbefore, hreply, hbrought⟩ := h.replied hok
        refine ⟨before, d, p, htaken, hbefore, hbrought, fun hsome => ?_⟩
        rw [if_pos hsome]
        exact hreply
      · obtain ⟨hlast, p, hreply, hp⟩ := h.failed hne
        refine ⟨hlast, fun hsome => ⟨p, ?_, hp⟩⟩
        rw [if_pos hsome]
        exact hreply

theorem transact.sent (depth : Nat) (handle code : BitVec 32) (data : Parcel)
    (reply : Option Parcel) {flags : BitVec 32} (hflags : twoWay flags = false) :
    wp (transact x (knot x depth) turns handle code data reply flags)
      (fun r _ => Sent [] r) (fun _ => True) s := by
  unfold transact
  rw [wp_bind]
  apply wp_of_all _ fun _ => trivial
  intro err s₁
  split
  · rename_i herr
    unfold update
    rw [wp_bind, wp_modify, wp_pure]
    refine ⟨fun h => absurd h herr, fun _ => ⟨[], rfl, ?_⟩⟩
    intro c hc
    cases hc
  · rw [twoWay_accept_fds, if_neg (by simp [hflags]), wp_bind]
    apply wp_imp waitFrom.sent
    intro r s' h
    exact ⟨h.completed, h.failed⟩

theorem talkWithDriver.unread (hopen : 0 ≤ s.mDriverFD) (hin : s.mIn ≠ []) :
    wp (talkWithDriver x perform turns true) (fun err t => err = STATUS_OK ∧ t = s) E s := by
  have hopened : ¬s.mDriverFD < 0 := not_lt.mpr hopen
  unfold talkWithDriver
  rw [wp_bind, wp_get]
  simp [outAvail, needsRead, hin, hopened]

/-- A wait for nothing but the driver ends with the command that says that the driver has it. -/
theorem waitFrom.completes {rest : List ReturnCommand} (hopen : 0 ≤ s.mDriverFD)
    (hin : s.mIn = cmd :: rest) (hcmd : completes cmd = true) :
    wp (waitFrom x perform turns onCommand none (n + 1) taken) (fun r t' => r.err = STATUS_OK ∧
      r.taken = taken ++ [cmd] ∧ t' = { s with mIn := rest }) never s := by
  unfold waitFrom
  rw [wp_bind]
  apply wp_imp (talkWithDriver.unread hopen (by simp [hin]))
  rintro err t' ⟨rfl, rfl⟩
  rw [if_neg (lt_irrefl _), wp_bind, wp_get, hin]
  unfold update
  rw [wp_bind, wp_modify]
  cases cmd with
  | BR_ONEWAY_SPAM_SUSPECT => exact ⟨rfl, rfl, rfl⟩
  | BR_TRANSACTION_COMPLETE => exact ⟨rfl, rfl, rfl⟩
  | _ => cases hcmd

/-- A call that waits for its answer succeeds only with a `BR_REPLY` that it took itself, with the
caller's parcel over the buffer of that reply unless the reply is only a status. Every other end is
an error that the thread and the caller's parcel carry. -/
theorem a_call_succeeds_with_a_reply_of_its_own (x : Env V) (depth turns : Nat)
    (handle code : BitVec 32) (data : Parcel) (reply : Option Parcel) (flags : BitVec 32)
    (hflags : twoWay flags = true) (s : IPCThread V) :
    wp (transact x (knot x depth) turns handle code data reply flags) (fun r s' =>
      (r.err = STATUS_OK → ∃ before d p, r.taken = before ++ [.BR_REPLY d] ∧
        (∀ cmd ∈ before, isReply cmd = false) ∧ Brought d p ∧
        (reply.isSome = true → r.reply = some p)) ∧
      (r.err ≠ STATUS_OK → s'.mLastError = r.err ∧
        (reply.isSome = true → ∃ p, r.reply = some p ∧ p.mError = r.err))) (fun _ => True) s := by
  apply wp_imp (transact.replied depth handle code data reply hflags)
  intro r s' h
  exact ⟨h.replied, h.failed⟩

/-- A driver that sends the word 7 after commands that are no answer. -/
def replying : Env Unit :=
  scripted [[.BR_NOOP, .BR_TRANSACTION_COMPLETE], [.BR_REPLY (wordFrom 0)]]
    (.done (STATUS_OK, Parcel.empty))

theorem a_call_succeeds_with_the_word_seven :
    ∃ r s', transact replying (knot replying 4) 4 1 2 Parcel.empty (some Parcel.empty) 0 fresh =
      .ok (r, s') ∧ r.err = STATUS_OK ∧
        ∃ d p, ReturnCommand.BR_REPLY d ∈ r.taken ∧ r.reply = some p ∧ Brought d p := by
  obtain ⟨r, s', hok, herr⟩ : ∃ r s', transact replying (knot replying 4) 4 1 2 Parcel.empty
      (some Parcel.empty) 0 fresh = .ok (r, s') ∧ r.err = STATUS_OK :=
    wp_never_iff.mp (by decide +kernel)
  have hcall := (a_call_succeeds_with_a_reply_of_its_own replying 4 4 1 2 Parcel.empty
    (some Parcel.empty) 0 (by decide) fresh).of_ok hok
  obtain ⟨before, d, p, htaken, -, hbrought, hreply⟩ := hcall.1 herr
  refine ⟨r, s', hok, herr, d, p, ?_, hreply rfl, hbrought⟩
  rw [htaken]
  exact List.mem_append_right _ (List.mem_singleton_self _)

/-- A call that does not wait succeeds exactly with the first command that says that the driver has
it, and returns as soon as that command is next. -/
theorem a_one_way_call_succeeds_where_the_driver_has_it (x : Env V) (depth turns : Nat)
    (handle code : BitVec 32) (data : Parcel) (reply : Option Parcel) (flags : BitVec 32)
    (hflags : twoWay flags = false) (s : IPCThread V) :
    wp (transact x (knot x depth) turns handle code data reply flags)
        (fun r _ => Sent [] r) (fun _ => True) s ∧
      ∀ (n : Nat) (taken rest : List ReturnCommand) (cmd : ReturnCommand) (t : IPCThread V),
        0 ≤ t.mDriverFD → t.mIn = cmd :: rest → completes cmd = true →
        wp (waitFrom x (knot x depth) turns (executeCommand x (knot x depth) turns turns) none
          (n + 1) taken) (fun r t' => r.err = STATUS_OK ∧ r.taken = taken ++ [cmd] ∧
            t' = { t with mIn := rest }) never t := by
  constructor
  · exact transact.sent depth handle code data reply hflags
  · intro n taken rest cmd t hopen hin hcmd
    exact waitFrom.completes hopen hin hcmd

/-- A driver that sends a reply to a call that waits for none. -/
def overtaking : Env Unit :=
  scripted [[.BR_TRANSACTION_COMPLETE, .BR_REPLY (wordFrom 0)]]
    (.done (STATUS_OK, Parcel.empty))

theorem a_one_way_call_succeeds_before_a_reply :
    ∃ r s', transact overtaking (knot overtaking 4) 4 1 2 Parcel.empty none TF_ONE_WAY fresh =
      .ok (r, s') ∧ r.err = STATUS_OK ∧ ∃ before last, r.taken = before ++ [last] ∧
      completes last = true := by
  obtain ⟨r, s', hok, herr⟩ : ∃ r s', transact overtaking (knot overtaking 4) 4 1 2 Parcel.empty
      none TF_ONE_WAY fresh = .ok (r, s') ∧ r.err = STATUS_OK :=
    wp_never_iff.mp (by decide +kernel)
  have hcall := (a_one_way_call_succeeds_where_the_driver_has_it overtaking 4 4 1 2 Parcel.empty
    none TF_ONE_WAY (by decide) fresh).1.of_ok hok
  obtain ⟨before, last, htaken, -, hlast⟩ := hcall.completed herr
  exact ⟨r, s', hok, herr, before, last, htaken, hlast⟩

/-- A wait carries its error. -/
def Fails (r : Response) (s' : IPCThread V) : Prop :=
  r.err ≠ STATUS_OK → s'.mLastError = r.err ∧ ∃ p, r.reply = some p ∧ p.mError = r.err

end system_binder.IPCThread
