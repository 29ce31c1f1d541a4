-- What a thread and the driver owe each other: every command that is written goes to the driver
-- once and in the order it was written, and every command of the driver that waits for an
-- acknowledgement gets one of its own, and no other is written. The buffer of a transaction never
-- goes back.
import SystemBinder.ThreadLife

open prog

namespace system_binder.IPCThread

variable {V : Type}

/-! ## Commands that go out -/

/-- Since a moment, what was sent and what waits is what waited then and was written since. -/
def Streams (since : Core) (s : IPCThread V) : Prop :=
  ∃ written sent, s.queued = since.queued ++ written ∧ s.sent = since.sent ++ sent ∧
    sent ++ s.mOut = since.mOut ++ written

theorem Streams.refl (s : IPCThread V) : Streams s.core s :=
  ⟨[], [], (List.append_nil _).symm, (List.append_nil _).symm, (List.append_nil _).symm⟩

theorem Streams.congr {since : Core} {s s' : IPCThread V} (hqueued : s'.queued = s.queued)
    (hsent : s'.sent = s.sent) (hout : s'.mOut = s.mOut) (h : Streams since s) :
    Streams since s' := by
  unfold Streams
  rw [hqueued, hsent, hout]
  exact h

theorem Streams.write {since : Core} {s : IPCThread V} (cmd : OutCommand) (h : Streams since s) :
    Streams since (written cmd s) := by
  obtain ⟨before, sent, hqueued, hsent, hstream⟩ := h
  refine ⟨before ++ [cmd], sent, ?_, hsent, ?_⟩
  · show s.queued ++ [cmd] = _
    rw [hqueued, List.append_assoc]
  · show sent ++ (s.mOut ++ [cmd]) = _
    rw [← List.append_assoc, hstream, List.append_assoc]

theorem Streams.take {since : Core} {s : IPCThread V} (h : Streams since s) :
    Streams since { s with mOut := [], sent := s.sent ++ s.mOut } := by
  obtain ⟨before, sent, hqueued, hsent, hstream⟩ := h
  refine ⟨before, sent ++ s.mOut, hqueued, ?_, ?_⟩
  · show s.sent ++ s.mOut = _
    rw [hsent, List.append_assoc]
  · rw [List.append_nil, hstream]

/-- Nothing that the thread does takes a command out of the stream or puts one in its way. -/
def streamRules (x : Env V) : FreeRules x Core where
  Inv := Streams
  after := fun _ since => since
  after_none := fun _ => rfl
  congr := by
    intro since s s' hcore h
    exact h.congr (congrArg Core.queued hcore) (congrArg Core.sent hcore) (congrArg Core.mOut hcore)
  set := fun _ h => h.congr rfl rfl rfl
  write := fun _ h => h.write _
  take := fun h => h.take
  read := fun _ h => h.congr rfl rfl rfl
  mark := fun h => h.congr rfl rfl rfl

theorem streamRules_serves (x : Env V) : (streamRules x).rules.Serves :=
  Rules.serves_of (fun _ _ _ h => Streams.congr rfl rfl rfl h)
    fun _ _ _ _ h => Streams.congr rfl rfl rfl h

/-! ## Commands that wait -/

/-- What was written and executed since a moment acknowledges what it is to acknowledge, and what
is owed beyond. -/
structure Progress where
  queued : List OutCommand
  executed : List ReturnCommand
  owed : List Acknowledgement

def Acknowledged (since : Progress) (s : IPCThread V) : Prop :=
  ∃ written executed, s.queued = since.queued ++ written ∧
    s.executed = since.executed ++ executed ∧
    (written.filterMap acknowledges).Perm (executed.filterMap awaits ++ since.owed)

theorem Acknowledged.refl (s : IPCThread V) : Acknowledged ⟨s.queued, s.executed, []⟩ s :=
  ⟨[], [], (List.append_nil _).symm, (List.append_nil _).symm, .refl _⟩

theorem Acknowledged.congr {since : Progress} {s s' : IPCThread V} (hqueued : s'.queued = s.queued)
    (hexecuted : s'.executed = s.executed) (h : Acknowledged since s) : Acknowledged since s' := by
  unfold Acknowledged
  rw [hqueued, hexecuted]
  exact h

/-- One more that is owed. -/
def Progress.owing (ack : Option Acknowledgement) (since : Progress) : Progress :=
  { since with owed := since.owed ++ ack.toList }

theorem Acknowledged.write {since : Progress} {s : IPCThread V} (cmd : OutCommand)
    (h : Acknowledged since s) : Acknowledged (since.owing (acknowledges cmd)) (written cmd s) := by
  obtain ⟨before, executed, hqueued, hexecuted, hacks⟩ := h
  refine ⟨before ++ [cmd], executed, ?_, hexecuted, ?_⟩
  · show s.queued ++ [cmd] = _
    rw [hqueued, List.append_assoc]
    rfl
  · have hcmd : [cmd].filterMap acknowledges = (acknowledges cmd).toList := by
      cases h : acknowledges cmd <;> simp [h]
    rw [List.filterMap_append, hcmd]
    show List.Perm _ (_ ++ (since.owed ++ _))
    rw [← List.append_assoc]
    exact hacks.append_right _

/-- A command that is done owes nothing more. -/
theorem Acknowledged.mark {since : Progress} {s : IPCThread V} {cmd : ReturnCommand}
    (h : Acknowledged (since.owing (awaits cmd)) s) : Acknowledged since (marked cmd s) := by
  obtain ⟨before, executed, hqueued, hexecuted, hacks⟩ := h
  refine ⟨before, executed ++ [cmd], hqueued, ?_, ?_⟩
  · show s.executed ++ [cmd] = _
    rw [hexecuted, List.append_assoc]
    rfl
  · have hcmd : [cmd].filterMap awaits = (awaits cmd).toList := by
      cases h : awaits cmd <;> simp [h]
    rw [List.filterMap_append, hcmd, List.append_assoc]
    exact hacks.trans (List.perm_append_comm.append_left _)

def acknowledgementRules (x : Env V) : FreeRules x Progress where
  Inv := Acknowledged
  after := Progress.owing
  after_none := fun since => by simp [Progress.owing]
  congr := by
    intro since s s' hcore h
    exact h.congr (congrArg Core.queued hcore) (congrArg Core.executed hcore)
  set := fun _ h => h.congr rfl rfl
  write := fun _ h => h.write _
  take := fun h => h.congr rfl rfl
  read := fun _ h => h.congr rfl rfl
  mark := fun h => h.mark

theorem acknowledgementRules_serves (x : Env V) : (acknowledgementRules x).rules.Serves :=
  Rules.serves_of (fun _ _ _ h => Acknowledged.congr rfl rfl h)
    fun _ _ _ _ h => Acknowledged.congr rfl rfl h

/-! ## Buffers -/

/-- The call hands back no parcel over the buffer. -/
def Action.Leaves (b : Nat) : Action → Prop
  | .freeBuffer data => data ≠ b
  | .transact _ _ _ (some p) _ => HandsBack (· ≠ b) p
  | _ => True

def Answer.Leaves (b : Nat) : Answer → Prop
  | .transacted _ (some p) => HandsBack (· ≠ b) p
  | _ => True

/-- The buffer does not come with a reply. -/
def ComesApart (b : Nat) : ReturnCommand → Prop
  | .BR_REPLY d => d.tr.buffer ≠ b
  | _ => True

/-- The buffer was handed back so many times, and the thread is not to take it with a reply. -/
def HandedBack (b n : Nat) (s : IPCThread V) : Prop :=
  s.queued.count (.BC_FREE_BUFFER b) = n ∧ ∀ cmd ∈ s.mIn, ComesApart b cmd

theorem HandedBack.congr {b n : Nat} {s s' : IPCThread V} (hqueued : s'.queued = s.queued)
    (hin : s'.mIn = s.mIn) (h : HandedBack b n s) : HandedBack b n s' := by
  unfold HandedBack
  rw [hqueued, hin]
  exact h

theorem HandedBack.write {b n : Nat} {s : IPCThread V} {cmd : OutCommand}
    (hcmd : ∀ b', cmd = .BC_FREE_BUFFER b' → b' ≠ b) (h : HandedBack b n s) :
    HandedBack b n (written cmd s) := by
  have hne : cmd ≠ .BC_FREE_BUFFER b := fun heq => hcmd b heq rfl
  refine ⟨?_, h.2⟩
  show (s.queued ++ [cmd]).count _ = n
  rw [List.count_append, h.1, List.count_singleton, if_neg (by simpa using hne), Nat.add_zero]

variable {x : Env V} {b : Nat}

def bufferRules (hasks : x.Asks (Action.Leaves b) (Answer.Leaves b))
    (hdriver : ∀ n, ∀ cmd ∈ (x.driver n).commands, ComesApart b cmd)
    (htorn : ∀ n, ∀ cmd ∈ x.torn n, ComesApart b cmd) : Rules x Nat where
  Inv := HandedBack b
  after := fun _ n => n
  ask := Action.Leaves b
  told := Answer.Leaves b
  free := (· ≠ b)
  readable := ComesApart b
  after_none := fun _ => rfl
  congr := by
    intro n s s' hcore h
    exact h.congr (congrArg Core.queued hcore) (congrArg Core.mIn hcore)
  set := fun _ h => h.congr rfl rfl
  write := fun hcmd h => h.write hcmd
  take := fun h => h.congr rfl rfl
  read := fun hcmds h => ⟨h.1, hcmds⟩
  pop := by
    intro n s cmd rest h hin
    have hall := h.2
    rw [hin] at hall
    refine ⟨hall cmd List.mem_cons_self, h.1, ?_⟩
    exact fun cmd' hcmd' => hall cmd' (List.mem_cons_of_mem _ hcmd')
  mark := fun h => h.congr rfl rfl
  asks := hasks
  driver := hdriver
  torn := htorn
  read_reply := fun _ h => h
  ask_freeBuffer := fun _ h => h
  ask_transact := fun _ _ _ _ _ h => h
  told_transacted := by
    intro err reply hreply
    cases reply with
    | none => trivial
    | some p => exact hreply p rfl
  told_other := by
    intro answer hanswer
    cases answer with
    | transacted err reply => exact absurd rfl (hanswer err reply)
    | _ => trivial

theorem bufferRules_serves (hasks : x.Asks (Action.Leaves b) (Answer.Leaves b))
    (hdriver : ∀ n, ∀ cmd ∈ (x.driver n).commands, ComesApart b cmd)
    (htorn : ∀ n, ∀ cmd ∈ x.torn n, ComesApart b cmd) :
    (bufferRules hasks hdriver htorn).Serves :=
  Rules.serves_of (fun _ _ _ h => HandedBack.congr rfl rfl h)
    fun _ _ _ _ h => HandedBack.congr rfl rfl h

/-- How often the buffer was given back. -/
def timesFreed (b : Nat) (s : IPCThread V) : Nat := s.queued.count (.BC_FREE_BUFFER b)

/-- The code outside takes no ownership of the buffer, and the driver does not give it out with a
reply while it is out with a transaction. -/
structure StaysOut (x : Env V) (b : Nat) : Prop where
  asks : x.Asks (Action.Leaves b) (Answer.Leaves b)
  driver : ∀ n, ∀ cmd ∈ (x.driver n).commands, ComesApart b cmd
  torn : ∀ n, ∀ cmd ∈ x.torn n, ComesApart b cmd

/-- A driver with a script gives out what is in its buffers. -/
theorem scripted_staysOut {buffers : List (List ReturnCommand)}
    {handler : Foreign Unit (Int × Parcel)} {b : Nat}
    (hbuffers : ∀ cmds ∈ buffers, ∀ cmd ∈ cmds, ComesApart b cmd)
    (hhandler : handler.Asks (Action.Leaves b) (Answer.Leaves b) fun _ => True) :
    StaysOut (scripted buffers handler) b where
  asks := ⟨fun _ => trivial, fun _ => trivial, fun _ => trivial, fun _ => trivial, fun _ => trivial,
    fun _ => trivial, trivial, fun _ => trivial, fun _ => trivial, fun _ _ _ _ _ => hhandler⟩
  driver := by
    intro n cmd hcmd
    have hread : (scripted buffers handler).driver n =
        (buffers[n]?.map (DriverAnswer.done .all)).getD (.fails EBADF.toNat) := rfl
    rw [hread] at hcmd
    cases hn : buffers[n]? with
    | none =>
      rw [hn] at hcmd
      cases hcmd
    | some cmds =>
      rw [hn] at hcmd
      exact hbuffers cmds (List.mem_of_getElem? hn) cmd hcmd
  torn := fun _ _ h => by cases h

/-- Executes the transactions one after another. -/
def executeTransactions (x : Env V) (depth turns n : Nat) :
    List Delivery → Prog (IPCThread V) Fault Unit
  | [] => pure ()
  | d :: ds => do
    let _ ← executeCommand x (knot x depth) turns n (.BR_TRANSACTION d)
    executeTransactions x depth turns n ds

theorem executeTransactions.kept {ι : Type} {k : Rules x ι} (hserves : k.Serves)
    (htransactions : ∀ d, k.readable (.BR_TRANSACTION d)) (depth turns n : Nat)
    (ds : List Delivery) : k.Kept (executeTransactions x depth turns n ds) := by
  induction ds with
  | nil => exact k.done
  | cons d ds ih =>
    exact .bind ((hserves.knot depth).executeCommand hserves n _ (htransactions d)) fun _ _ => ih

/-! ## The laws -/

/-- Whatever a thread does, and however its transactions are nested: what it has sent to the driver
since, and what waits to be sent, is what waited and what it has written since, in this order. -/
theorem commands_go_out_once_and_in_order (x : Env V) (depth turns : Nat) (tasks : List (Task V))
    (s : IPCThread V) :
    wp (lives x turns depth tasks) (fun _ s' => ∃ written sent,
      s'.queued = s.queued ++ written ∧ s'.sent = s.sent ++ sent ∧
        sent ++ s'.mOut = s.mOut ++ written) (fun _ => True) s := by
  have hallows : ∀ task ∈ tasks, (streamRules x).rules.Allows task :=
    fun task _ => Rules.allows_all (fun _ => trivial) task
  have hlives : (streamRules x).rules.Kept (lives x turns depth tasks) :=
    (streamRules_serves x).lives depth hallows
  apply wp_imp (hlives s.core s (Streams.refl s))
  rintro _ s' ⟨-, hstreams⟩
  exact hstreams

/-- Whatever a thread does, and however its transactions are nested: what it has written since
acknowledges what the commands that it executed since wait for, each once and with the objects of
the command, and nothing else. In particular each transaction that waits for its reply has got one,
and no other has. -/
theorem commands_are_acknowledged_once (x : Env V) (depth turns : Nat) (tasks : List (Task V))
    (s : IPCThread V) :
    wp (lives x turns depth tasks) (fun _ s' => ∃ written executed,
      s'.queued = s.queued ++ written ∧ s'.executed = s.executed ++ executed ∧
        (written.filterMap acknowledges).Perm (executed.filterMap awaits)) (fun _ => True) s := by
  have hallows : ∀ task ∈ tasks, (acknowledgementRules x).rules.Allows task :=
    fun task _ => Rules.allows_all (fun _ => trivial) task
  have hlives : (acknowledgementRules x).rules.Kept (lives x turns depth tasks) :=
    (acknowledgementRules_serves x).lives depth hallows
  apply wp_imp (hlives _ s (Acknowledged.refl s))
  rintro _ s' ⟨-, written, executed, hqueued, hexecuted, hacks⟩
  rw [List.append_nil] at hacks
  exact ⟨written, executed, hqueued, hexecuted, hacks⟩

/-- A thread hands back the buffers of its replies and those that it is told to. The buffer of an
incoming transaction, which comes with no reply, it never hands back by itself: not after the
handler, not with the reply, not when the thread ends. -/
theorem the_buffer_of_a_transaction_stays (x : Env V) (b depth turns : Nat) (tasks : List (Task V))
    (hasks : x.Asks (Action.Leaves b) (Answer.Leaves b))
    (hdriver : ∀ n, ∀ cmd ∈ (x.driver n).commands, ComesApart b cmd)
    (htorn : ∀ n, ∀ cmd ∈ x.torn n, ComesApart b cmd)
    (htasks : ∀ task ∈ tasks, (bufferRules hasks hdriver htorn).Allows task)
    (s : IPCThread V) (hin : ∀ cmd ∈ s.mIn, ComesApart b cmd) :
    wp (lives x turns depth tasks) (fun _ s' =>
      s'.queued.count (.BC_FREE_BUFFER b) = s.queued.count (.BC_FREE_BUFFER b))
      (fun _ => True) s := by
  have hlives : (bufferRules hasks hdriver htorn).Kept (lives x turns depth tasks) :=
    (bufferRules_serves hasks hdriver htorn).lives depth htasks
  apply wp_imp (hlives _ s ⟨rfl, hin⟩)
  rintro _ s' ⟨-, hcount, -⟩
  exact hcount

/-- A driver with one transaction, over the buffer 512. -/
def serving512 : Env Unit :=
  scripted [[.BR_TRANSACTION (wordFrom 200), .BR_TRANSACTION_COMPLETE]]
    (.done (STATUS_OK, Parcel.empty))

theorem the_buffer_of_a_transaction_stays_after_its_reply :
    ∃ s' : IPCThread Unit, s'.executed = [.BR_TRANSACTION (wordFrom 200)] ∧
      s'.queued.count (.BC_FREE_BUFFER 512) = 0 := by
  obtain ⟨_, s', hok, hexecuted⟩ : ∃ u s', lives serving512 5 5 [.handlePolledCommands] fresh =
      .ok (u, s') ∧ s'.executed = [.BR_TRANSACTION (wordFrom 200)] :=
    wp_never_iff.mp (by decide +kernel)
  refine ⟨s', hexecuted, ?_⟩
  have hout : StaysOut serving512 512 := by
    refine scripted_staysOut ?_ trivial
    intro cmds hcmds cmd hcmd
    rw [List.mem_singleton.mp hcmds] at hcmd
    rcases List.mem_cons.mp hcmd with rfl | hcmd
    · trivial
    · rw [List.mem_singleton.mp hcmd]
      trivial
  have hstays := the_buffer_of_a_transaction_stays serving512 512 5 5 [.handlePolledCommands]
    hout.asks hout.driver hout.torn (by simp [Rules.Allows]) fresh (fun _ h => by cases h)
  exact hstays.of_ok hok

/-- However transactions are nested and whatever their handlers return, no transaction gives its
buffer back: the parcel over it, which would do that as it is freed, is a local that nobody frees. -/
theorem no_transaction_gives_its_buffer_back (x : Env V) (depth turns n : Nat)
    (ds : List Delivery) (s : IPCThread V) (hout : ∀ d ∈ ds, StaysOut x d.tr.buffer)
    (hin : ∀ d ∈ ds, ∀ cmd ∈ s.mIn, ComesApart d.tr.buffer cmd) :
    wp (executeTransactions x depth turns n ds) (fun _ s' => ∀ d ∈ ds,
      timesFreed d.tr.buffer s' = timesFreed d.tr.buffer s) (fun _ => True) s := by
  refine wp_of_result (fun _ s' hok d hd => ?_) fun _ _ => trivial
  have hserves := bufferRules_serves (hout d hd).asks (hout d hd).driver (hout d hd).torn
  have hkept := executeTransactions.kept hserves (fun _ => trivial) depth turns n ds
  exact ((hkept _ s ⟨rfl, hin d hd⟩).of_ok hok).2.1

/-- A driver that has the reply as soon as it is sent. -/
def acknowledging : Env Unit :=
  scripted [[.BR_TRANSACTION_COMPLETE]] (.done (STATUS_OK, Parcel.empty))

/-- The transaction is answered, and its buffer stays. -/
theorem no_transaction_gives_the_buffer_512_back :
    ∃ s' : IPCThread Unit, s'.executed = [.BR_TRANSACTION (wordFrom 200)] ∧ timesFreed 512 s' = 0 := by
  obtain ⟨r, s', hok, hexecuted⟩ : ∃ r s',
      executeTransactions acknowledging 5 5 5 [wordFrom 200] fresh = .ok (r, s') ∧
        s'.executed = [.BR_TRANSACTION (wordFrom 200)] := wp_never_iff.mp (by decide +kernel)
  have hout : StaysOut acknowledging 512 := by
    refine scripted_staysOut ?_ trivial
    intro cmds hcmds cmd hcmd
    rw [List.mem_singleton.mp hcmds] at hcmd
    rw [List.mem_singleton.mp hcmd]
    trivial
  have hlaw := no_transaction_gives_its_buffer_back acknowledging 5 5 5 [wordFrom 200] fresh
    (fun d hd => by rw [List.mem_singleton.mp hd]; exact hout) fun _ _ _ h => by cases h
  exact ⟨s', hexecuted, hlaw.of_ok hok _ (List.mem_singleton_self _)⟩

/-- One transaction whose buffer is not given back once. -/
theorem a_transaction_keeps_its_buffer :
    ¬ ∀ r s', executeTransactions acknowledging 5 5 5 [wordFrom 200] fresh = .ok (r, s') →
      timesFreed 512 s' = timesFreed 512 fresh + 1 := by
  intro hall
  obtain ⟨r, s', hok, hfreed⟩ : ∃ r s',
      executeTransactions acknowledging 5 5 5 [wordFrom 200] fresh = .ok (r, s') ∧
        timesFreed 512 s' = 0 := wp_never_iff.mp (by decide +kernel)
  rw [hall r s' hok] at hfreed
  exact absurd hfreed (by decide)

end system_binder.IPCThread
