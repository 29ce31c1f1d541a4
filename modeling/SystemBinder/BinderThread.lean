-- The BinderThread: a thread that runs a loop, and the functions with which
-- others start it, ask it to end and wait for it, all under one mutex.
import SystemBinder.Base

open prog

namespace system_binder

/-- `-EWOULDBLOCK` -/
def STATUS_WOULD_BLOCK : Int := -11

/-- How the kernel names a thread. -/
abbrev Tid := Nat

/-- The fields of a BinderThread that its functions read, the mutex and the condition apart. -/
structure BinderThread where
  mStatus : Int
  mExitPending : Bool
  mRunning : Bool
  mThread : BitVec 32
deriving DecidableEq, Repr

namespace BinderThread

/-- `BinderThread_ctor` -/
def ctor : BinderThread where
  mStatus := STATUS_OK
  mExitPending := false
  mRunning := false
  mThread := -1

/-- The functions that a thread may call. -/
inductive Call
  | run (name : Option String)
  | requestExit
  | requestExitAndWait
  | join
  | isRunning
  | getTid
  | exitPending
deriving DecidableEq, Repr

/-- What a function returns. -/
inductive Answer
  | nothing
  | status (status : Int)
  | flag (value : Bool)
  | tid (tid : Int)
deriving DecidableEq, Repr

/-- How far a thread is in the function that it is in: the first six are places in the function of
a call, from one operation on the mutex to the next, and the next two in
`BinderThread_threadLoop`. -/
inductive Place
  /-- before it locks -/
  | enters (call : Call)
  /-- has locked -/
  | locked (call : Call)
  /-- in `pthread_cond_wait`, without the mutex -/
  | waits (call : Call)
  /-- in `pthread_cond_wait`, woken, and wants the mutex back -/
  | woken (call : Call)
  /-- back from `pthread_cond_wait`, with the mutex -/
  | relocked (call : Call)
  /-- has unlocked, before it reads the status that it returns -/
  | unlocked (call : Call)
  /-- before it locks at the end of a turn -/
  | turned (result : Bool)
  /-- has locked at the end of a turn -/
  | judges (result : Bool)
  /-- in the code that calls these functions -/
  | elsewhere
deriving DecidableEq, Repr

/-- Where the loop calls a function, which may call others. -/
inductive Caller
  | readyToRun
  | exitPending
  | threadLoop
deriving DecidableEq, Repr

/-- A thread: not there yet, in a function that was called from some calls of the loop, or at its
end. -/
inductive Thread
  | unborn
  | alive (place : Place) (callers : List Caller)
  | ended
deriving DecidableEq, Repr

/-- A BinderThread with its mutex and the threads around it. -/
structure Process where
  this : BinderThread
  mLock : Option Tid
  threads : Tid → Thread
  returned : List (Tid × Answer)

/-- What a thread does next. -/
inductive Act
  /-- calls a function, from outside or out of `readyToRun` and `threadLoop` -/
  | call (call : Call)
  /-- gets the mutex -/
  | lock
  /-- goes on until it gives the mutex back; `created` is what `pthread_create` made -/
  | proceed (created : Option Tid)
  /-- returns the status that it reads without the mutex -/
  | returnStatus
  /-- comes out of the wait though nobody woke it -/
  | wakeUp
  /-- `readyToRun` returns -/
  | readyToRun (status : Int)
  /-- `threadLoop` returns -/
  | threadLoop (result : Bool)
deriving DecidableEq, Repr

structure Event where
  thread : Tid
  act : Act
deriving DecidableEq, Repr

namespace Process

/-- The process with other fields of the BinderThread. -/
def set (f : BinderThread → BinderThread) (s : Process) : Process := { s with this := f s.this }

/-- The thread `t` stands there now. -/
def goTo (t : Tid) (place : Place) (callers : List Caller) (s : Process) : Process :=
  { s with threads := Function.update s.threads t (.alive place callers) }

/-- `pthread_mutex_unlock` -/
def unlock (s : Process) : Process := { s with mLock := none }

/-- Where the caller goes on with the answer. The loop goes to its first turn or past it. -/
def resume (answer : Answer) : List Caller → Place × List Caller
  | .exitPending :: callers =>
    if answer = .flag true then (.turned true, callers) else (.elsewhere, .threadLoop :: callers)
  | callers => (.elsewhere, callers)

/-- A function returns to what called it. -/
def giveBack (t : Tid) (answer : Answer) (callers : List Caller) (s : Process) : Process :=
  { s.goTo t (resume answer callers).1 (resume answer callers).2 with
    returned := s.returned ++ [(t, answer)] }

/-- What `pthread_cond_broadcast` does to a thread. -/
def wake : Thread → Thread
  | .alive (.waits call) callers => .alive (.woken call) callers
  | thread => thread

/-- `pthread_cond_broadcast` -/
def broadcast (s : Process) : Process := { s with threads := fun t => wake (s.threads t) }

/-- The end of `BinderThread_run`, with the mutex. -/
def start (threadId : Tid → BitVec 32) (t : Tid) (created : Option Tid) (callers : List Caller)
    (s : Process) : Option Process :=
  if s.this.mRunning = true then
    some (s.unlock.giveBack t (.status STATUS_INVALID_OPERATION) callers)
  else
    let s := s.set fun this =>
      { this with mStatus := STATUS_OK, mExitPending := false, mThread := -1, mRunning := true }
    match created with
    | none =>
      let s := s.set fun this =>
        { this with mStatus := STATUS_UNKNOWN_ERROR, mRunning := false, mThread := -1 }
      some (s.unlock.giveBack t (.status STATUS_UNKNOWN_ERROR) callers)
    | some child =>
      if s.threads child = .unborn then
        let s := s.set fun this => { this with mThread := threadId child }
        some ((s.goTo child .elsewhere [.readyToRun]).unlock.giveBack t (.status STATUS_OK) callers)
      else none

/-- The head of the loop that waits for `mThreadExitedCondition`, and what comes after it. -/
def awaitExit (t : Tid) (call : Call) (callers : List Caller) (s : Process) : Process :=
  if s.this.mRunning = true then s.unlock.goTo t (.waits call) callers
  else
    let s := s.set fun this =>
      { this with mExitPending := if call = .requestExitAndWait then false else this.mExitPending }
    s.unlock.goTo t (.unlocked call) callers

/-- What a function does with the mutex. -/
def inside (threadId : Tid → BitVec 32) (t : Tid) (created : Option Tid) (callers : List Caller)
    (s : Process) : Call → Option Process
  | .run _ => s.start threadId t created callers
  | .requestExit =>
    some ((s.set fun this => { this with mExitPending := true }).unlock.giveBack t .nothing callers)
  | .requestExitAndWait =>
    if s.this.mThread = threadId t then
      some (s.unlock.giveBack t (.status STATUS_WOULD_BLOCK) callers)
    else some ((s.set fun this => { this with mExitPending := true }).awaitExit t
      .requestExitAndWait callers)
  | .join =>
    if s.this.mThread = threadId t then
      some (s.unlock.giveBack t (.status STATUS_WOULD_BLOCK) callers)
    else some (s.awaitExit t .join callers)
  | .isRunning => some (s.unlock.giveBack t (.flag s.this.mRunning) callers)
  | .getTid => some (s.unlock.giveBack t (.tid (if s.this.mRunning = true then t else -1)) callers)
  | .exitPending => some (s.unlock.giveBack t (.flag s.this.mExitPending) callers)

/-- The loop of `BinderThread_threadLoop` is left at the end of a turn. -/
def LeavesLoop (s : Process) (result : Bool) : Prop := result = false ∨ s.this.mExitPending = true

instance (s : Process) (result : Bool) : Decidable (s.LeavesLoop result) :=
  inferInstanceAs (Decidable (_ ∨ _))

/-- The end of a turn of `BinderThread_threadLoop`, with the mutex. -/
def judge (t : Tid) (result : Bool) (callers : List Caller) (s : Process) : Process :=
  if s.LeavesLoop result then
    -- `break` goes past the unlock, and the function returns
    let s := (s.set fun this =>
      { this with mExitPending := true, mRunning := false, mThread := -1 }).broadcast
    { s with
      threads := Function.update s.threads t .ended
      returned := s.returned ++ [(t, .status 0)] }
  else s.unlock.goTo t .elsewhere (.threadLoop :: callers)

/-- `pthread_mutex_lock`, or the end of `pthread_cond_wait`. -/
def lock (t : Tid) (place : Place) (callers : List Caller) (s : Process) : Option Process :=
  if s.mLock = none then some { s.goTo t place callers with mLock := some t } else none

/-- What a thread at a place can do. -/
def act (threadId : Tid → BitVec 32) (t : Tid) (s : Process) (callers : List Caller) :
    Place → Act → Option Process
  -- a name that is NULL ends the process
  | .elsewhere, .call (.run none) => none
  | .elsewhere, .call call => some (s.goTo t (.enters call) callers)
  | .enters call, .lock => s.lock t (.locked call) callers
  | .woken call, .lock => s.lock t (.relocked call) callers
  | .turned result, .lock => s.lock t (.judges result) callers
  | .locked call, .proceed created => s.inside threadId t created callers call
  | .relocked call, .proceed _ => some (s.awaitExit t call callers)
  | .judges result, .proceed _ => some (s.judge t result callers)
  | .unlocked _, .returnStatus => some (s.giveBack t (.status s.this.mStatus) callers)
  | .waits call, .wakeUp => some (s.goTo t (.woken call) callers)
  | .elsewhere, .readyToRun status =>
    match callers with
    | .readyToRun :: callers =>
      let s := s.set fun this => { this with mStatus := status }
      some (if status = STATUS_OK then s.goTo t (.enters .exitPending) (.exitPending :: callers)
        else s.goTo t (.turned false) callers)
    | _ => none
  | .elsewhere, .threadLoop result =>
    match callers with
    | .threadLoop :: callers => some (s.goTo t (.turned result) callers)
    | _ => none
  | _, _ => none

end Process

/-- One step of one thread. -/
def step (threadId : Tid → BitVec 32) (e : Event) (s : Process) : Option Process :=
  match s.threads e.thread with
  | .alive place callers => s.act threadId e.thread callers place e.act
  | _ => none

/-- A BinderThread after its constructor, among the threads that are there. -/
def Process.begin (there : Tid → Bool) : Process where
  this := ctor
  mLock := none
  threads := fun t => if there t = true then .alive .elsewhere [] else .unborn
  returned := []

end BinderThread

end system_binder
