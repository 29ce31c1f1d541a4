-- What a thread does from its first use to its end: code outside runs on it, it may join the pool
-- of its process, or poll for commands, and in the end it flushes what it has written.
import SystemBinder.ThreadLaws

open prog

namespace system_binder.IPCThread

variable {V : Type} (x : Env V) (perform : Action → Prog (IPCThread V) Fault Answer) (turns : Nat)

/-! ## The loop -/

/-- `IPCThreadState_getAndExecuteCommand`, without the counts of the process. -/
def getAndExecuteCommand : Prog (IPCThread V) Fault Int := do
  let result ← talkWithDriver x perform turns true
  if result < STATUS_OK then pure result
  else do
    let s ← get
    match s.mIn with
    | [] => pure result
    | cmd :: rest => do
      update fun s => { s with mIn := rest }
      executeCommand x perform turns turns cmd

/-- The inner loop of `IPCThreadState_processPendingDerefs`, for at most `n` turns. -/
def derefWeak : Nat → Prog (IPCThread V) Fault Unit
  | 0 => fault .tooDeep
  | n + 1 => do
    let s ← get
    match s.mPendingWeakDerefs with
    | [] => pure ()
    | refs :: rest => do
      update fun s => { s with mPendingWeakDerefs := rest }
      foreign perform (x.decWeak refs)
      derefWeak n

/-- The strong reference that each turn of the outer loop gives back. -/
def derefStrong : Prog (IPCThread V) Fault Unit := do
  let s ← get
  match s.mPendingStrongDerefs with
  | [] => pure ()
  | obj :: rest => do
    update fun s => { s with mPendingStrongDerefs := rest }
    foreign perform (x.decStrong obj)

/-- `IPCThreadState_processPendingDerefs`, for at most `n` turns. It compares the position in `mIn`
with itself, so that it never waits for the commands there. -/
def processPendingDerefs : Nat → Prog (IPCThread V) Fault Unit
  | 0 => fault .tooDeep
  | n + 1 => do
    let s ← get
    if s.mPendingWeakDerefs = [] ∧ s.mPendingStrongDerefs = [] then pure ()
    else do
      derefWeak x perform turns
      derefStrong x perform
      processPendingDerefs n

/-- The loop of `IPCThreadState_joinThreadPool`, for at most `n` turns. -/
def poolLoop (isMain : Bool) : Nat → Prog (IPCThread V) Fault Unit
  | 0 => fault .tooDeep
  | n + 1 => do
    processPendingDerefs x perform turns turns
    let result ← getAndExecuteCommand x perform turns
    if result < STATUS_OK ∧ result ≠ STATUS_TIMED_OUT ∧ result ≠ -ECONNREFUSED ∧
        result ≠ -EBADF then
      fault (.logFatal "getAndExecuteCommand returned unexpected error, aborting")
    else if result = STATUS_TIMED_OUT ∧ isMain = false then pure ()
    else if result = -ECONNREFUSED ∨ result = -EBADF then pure ()
    else poolLoop isMain n

/-- `IPCThreadState_joinThreadPool`, without the counts of the process. -/
def joinThreadPool (isMain : Bool) : Prog (IPCThread V) Fault Unit := do
  write (if isMain = true then .BC_ENTER_LOOPER else .BC_REGISTER_LOOPER)
  update fun s => { s with mIsLooper := true }
  poolLoop x perform turns isMain turns
  write .BC_EXIT_LOOPER
  update fun s => { s with mIsLooper := false }
  let _ ← talkWithDriver x perform turns false
  pure ()

/-! ## Polling -/

/-- `IPCThreadState_setupPolling`, with the file that is to be polled. -/
def setupPolling : Prog (IPCThread V) Fault (Int × Option Int) := do
  let s ← get
  if s.mDriverFD < 0 then pure (-EBADF, none)
  else do
    write .BC_ENTER_LOOPER
    flushCommands x perform turns
    pure (0, some s.mDriverFD)

/-- The loop of `IPCThreadState_handlePolledCommands`, for at most `n` turns. -/
def pollLoop : Nat → Prog (IPCThread V) Fault Int
  | 0 => fault .tooDeep
  | n + 1 => do
    let result ← getAndExecuteCommand x perform turns
    let s ← get
    if s.mIn = [] then pure result else pollLoop n

/-- `IPCThreadState_handlePolledCommands` -/
def handlePolledCommands : Prog (IPCThread V) Fault Int := do
  let result ← pollLoop x perform turns turns
  processPendingDerefs x perform turns turns
  flushCommands x perform turns
  pure result

/-! ## The life of a thread -/

/-- What a thread is used for. -/
inductive Task (V : Type)
  | run (code : Foreign V Unit)
  | joinThreadPool (isMain : Bool)
  | setupPolling
  | handlePolledCommands
  | threadDestructor

/-- At the top of a thread, where it works off nothing else. -/
def work : Task V → Prog (IPCThread V) Fault Unit
  | .run code => foreign perform code
  | .joinThreadPool isMain => joinThreadPool x perform turns isMain
  | .setupPolling => do
    let _ ← setupPolling x perform turns
    pure ()
  | .handlePolledCommands => do
    let _ ← handlePolledCommands x perform turns
    pure ()
  | .threadDestructor => flushCommands x perform turns

/-- One task after the other. -/
def lives (depth : Nat) : List (Task V) → Prog (IPCThread V) Fault Unit
  | [] => pure ()
  | task :: tasks => do
    work x (knot x depth) turns task
    lives depth tasks

/-! ## The rules -/

namespace Rules

variable {x perform turns} {ι : Type} {k : Rules x ι}

theorem Performs.getAndExecuteCommand (h : k.Performs perform) (hserves : k.Serves) :
    k.Kept (getAndExecuteCommand x perform turns) := by
  refine .bind (h.talkWithDriver true) fun result _ => .ite (fun _ => .pure trivial) fun _ => ?_
  intro i s hs
  rw [wp_bind, wp_get]
  split
  · exact ⟨trivial, hs⟩
  · rename_i cmd rest hin
    obtain ⟨hcmd, hpop⟩ := k.pop hs hin
    unfold update
    rw [wp_bind, wp_modify]
    exact h.executeCommand hserves turns cmd hcmd i _ hpop

theorem Performs.derefWeak (h : k.Performs perform) (n : Nat) :
    k.Kept (derefWeak x perform n) := by
  induction n with
  | zero => exact .fault _
  | succ n ih =>
    refine .look fun s => ?_
    split
    · exact k.done
    · refine .bind (k.same fun _ => rfl) fun _ _ => ?_
      exact .bind (h.foreign (k.asks.decWeak _)) fun _ _ => ih

theorem Performs.derefStrong (h : k.Performs perform) : k.Kept (derefStrong x perform) := by
  refine .look fun s => ?_
  split
  · exact k.done
  · exact .bind (k.same fun _ => rfl) fun _ _ => h.foreign (k.asks.decStrong _)

theorem Performs.processPendingDerefs (h : k.Performs perform) (n : Nat) :
    k.Kept (processPendingDerefs x perform turns n) := by
  induction n with
  | zero => exact .fault _
  | succ n ih =>
    refine .look fun s => .ite (fun _ => k.done) fun _ => ?_
    exact .bind (h.derefWeak _) fun _ _ => .bind h.derefStrong fun _ _ => ih

theorem Performs.poolLoop (h : k.Performs perform) (hserves : k.Serves) (isMain : Bool) (n : Nat) :
    k.Kept (poolLoop x perform turns isMain n) := by
  induction n with
  | zero => exact .fault _
  | succ n ih =>
    refine .bind (h.processPendingDerefs _) fun _ _ => ?_
    refine .bind (h.getAndExecuteCommand hserves) fun result _ => ?_
    refine .ite (fun _ => .fault _) fun _ => ?_
    exact .ite (fun _ => k.done) fun _ => .ite (fun _ => k.done) fun _ => ih

theorem Performs.joinThreadPool (h : k.Performs perform) (hserves : k.Serves) (isMain : Bool) :
    k.Kept (joinThreadPool x perform turns isMain) := by
  have henter : k.Kept (IPCThread.write (V := V)
      (if isMain = true then .BC_ENTER_LOOPER else .BC_REGISTER_LOOPER)) := by
    split
    · exact k.writes rfl fun _ h => by cases h
    · exact k.writes rfl fun _ h => by cases h
  refine .bind henter fun _ _ => .bind (k.same fun _ => rfl) fun _ _ => ?_
  refine .bind (h.poolLoop hserves isMain turns) fun _ _ => ?_
  refine .bind (k.writes rfl fun _ h => by cases h) fun _ _ => ?_
  refine .bind (k.same fun _ => rfl) fun _ _ => .bind (h.talkWithDriver false) fun _ _ => k.done

theorem Performs.setupPolling (h : k.Performs perform) : k.Kept (setupPolling x perform turns) := by
  refine .look fun s => .ite (fun _ => .pure trivial) fun _ => ?_
  refine .bind (k.writes rfl fun _ h => by cases h) fun _ _ => ?_
  exact .bind h.flushCommands fun _ _ => .pure trivial

theorem Performs.pollLoop (h : k.Performs perform) (hserves : k.Serves) (n : Nat) :
    k.Kept (pollLoop x perform turns n) := by
  induction n with
  | zero => exact .fault _
  | succ n ih =>
    refine .bind (h.getAndExecuteCommand hserves) fun result _ => .look fun s => ?_
    exact .ite (fun _ => .pure trivial) fun _ => ih

theorem Performs.handlePolledCommands (h : k.Performs perform) (hserves : k.Serves) :
    k.Kept (handlePolledCommands x perform turns) := by
  refine .bind (h.pollLoop hserves turns) fun result _ => ?_
  refine .bind (h.processPendingDerefs turns) fun _ _ => ?_
  exact .bind h.flushCommands fun _ _ => .pure trivial

/-- The code outside of a task calls only what it may. -/
def Allows (k : Rules x ι) : Task V → Prop
  | .run code => code.Asks k.ask k.told fun _ => True
  | _ => True

theorem allows_all (hask : ∀ a, k.ask a) (task : Task V) : k.Allows task := by
  cases task with
  | run code => exact Code.asks_all hask fun _ => trivial
  | _ => trivial

theorem Performs.work (h : k.Performs perform) (hserves : k.Serves) {task : Task V}
    (htask : k.Allows task) : k.Kept (IPCThread.work x perform turns task) := by
  cases task with
  | run code => exact h.foreign htask
  | joinThreadPool isMain => exact h.joinThreadPool hserves isMain
  | setupPolling => exact .bind h.setupPolling fun _ _ => k.done
  | handlePolledCommands => exact .bind (h.handlePolledCommands hserves) fun _ _ => k.done
  | threadDestructor => exact h.flushCommands

/-- The whole life of a thread keeps the family. -/
theorem Serves.lives (hserves : k.Serves) (depth : Nat) {tasks : List (Task V)}
    (htasks : ∀ task ∈ tasks, k.Allows task) : k.Kept (lives x turns depth tasks) := by
  induction tasks with
  | nil => exact k.done
  | cons task tasks ih =>
    refine .bind ((hserves.knot depth).work hserves (htasks task List.mem_cons_self)) ?_
    exact fun _ _ => ih fun task' htask' => htasks task' (List.mem_cons_of_mem _ htask')

end Rules

end system_binder.IPCThread
