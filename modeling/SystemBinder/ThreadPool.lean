-- A thread of the pool: it takes the commands of the driver one by one, and before each it works
-- off the derefs that commands put off. What is to say whether `mIn` is consumed compares the
-- position with itself.
import SystemBinder.BinderCommands
import SystemBinder.DerefLaws

open prog

namespace system_binder.IPCThreadState

/-- What the threads of a process count together. -/
structure PoolCounts where
  mMaxThreads : Nat
  mCurrentThreads : Nat
  mExecutingThreadsCount : Nat
  mStarvationStartTimeMs : Int
deriving DecidableEq, Repr

/-- What the code that the thread calls may change: the commands that are left in `mIn` too, where
it waits for an answer of its own. -/
structure Around (V : Type) where
  mIn : List ReturnCommand
  mOut : List OutCommand
  mIsLooper : Bool
  process : PoolCounts
  world : V

/-- For every deref that was begun, what was left in `mIn` at that time. -/
structure Pool (V : Type) extends Around V where
  entered : List (List ReturnCommand)

/-- What a call returns, the derefs that it puts off, and what it leaves. -/
abbrev Call (V α : Type) := Around V → α × List Push × Around V

/-- What a thread of the pool calls. `ioctl` writes the commands and reads a buffer, or fails with
an error number, and `execute` is `executeCommand` but for the commands that put a deref off. -/
structure PoolCalls (V : Type) where
  mDriverFD : Around V → Int
  ioctl : Call V (Except Int (List ReturnCommand))
  execute : ReturnCommand → Call V Int
  refBase : BitVec 64 → Around V → BitVec 64
  decWeak : BitVec 64 → Call V Unit
  decStrong : BitVec 64 → Call V Unit
  granted : Around V → Bool
  uptimeMillis : Around V → Int

variable {V α : Type}

abbrev PoolThread (V : Type) := Thread (Pool V)

/-! ## The calls -/

/-- A destructor is entered with what is left in `mIn`. -/
def enter (call : Call V Unit) (w : Pool V) : List Push × Pool V :=
  let (_, pushes, a) := call w.toAround
  (pushes, ⟨a, w.entered ++ [w.mIn]⟩)

def PoolCalls.callees (x : PoolCalls V) : Callees (Pool V) where
  decWeak := fun refs => enter (x.decWeak refs)
  decStrong := fun obj => enter (x.decStrong obj)
  granted := fun w => x.granted w.toAround

/-- A call that puts derefs off on its way. -/
def called (call : Call V α) : Prog (PoolThread V) Fault α := fun s =>
  let (result, pushes, a) := call s.world.toAround
  match pushAll pushes { s with world := ⟨a, s.world.entered⟩ } with
  | .ok s' => .ok (result, s')
  | .error e => .error (.inCall e)

def update (f : Around V → Around V) : Prog (PoolThread V) Fault Unit :=
  modify fun s => { s with world := ⟨f s.world.toAround, s.world.entered⟩ }

def around : Prog (PoolThread V) Fault (Around V) := do
  let s ← get
  pure s.world.toAround

variable (x : PoolCalls V)

/-- `VectorImpl_push` into one of the two vectors. -/
def putOff (deref : Deref) : Prog (PoolThread V) Fault Int :=
  called fun a => (STATUS_OK, [⟨deref, x.granted a⟩], a)

/-! ## One command -/

/-- `IPCThreadState_talkWithDriver(this, true)`: nothing is written or read while `mIn` is not
consumed. -/
def talkWithDriver : Prog (PoolThread V) Fault Int := do
  let a ← around
  if x.mDriverFD a < 0 then pure (-EBADF)
  else if a.mIn ≠ [] then pure STATUS_OK
  else do
    let answer ← called x.ioctl
    match answer with
    | .error errno => pure (-errno)
    | .ok [] => pure STATUS_OK
    | .ok cmds => do
      update fun a => { a with mIn := cmds }
      pure STATUS_OK

/-- `IPCThreadState_executeCommand` -/
def executeCommand : ReturnCommand → Prog (PoolThread V) Fault Int
  | .BR_RELEASE refs obj => do
    let a ← around
    if x.refBase refs a = obj then putOff x (.strong obj)
    else fault (.logFatal "BR_RELEASE: object does not match cookie")
  | .BR_DECREFS refs _ => putOff x (.weak refs)
  | cmd => called (x.execute cmd)

/-- `getAndExecuteCommand`, before the command is executed. -/
def beginExecuting (a : Around V) : Around V :=
  let count := a.process.mExecutingThreadsCount + 1
  { a with process := { a.process with
      mExecutingThreadsCount := count
      mStarvationStartTimeMs :=
        if count ≥ a.process.mMaxThreads ∧ a.process.mStarvationStartTimeMs = 0 then
          x.uptimeMillis a
        else a.process.mStarvationStartTimeMs } }

/-- `getAndExecuteCommand`, after the command is executed. -/
def endExecuting (a : Around V) : Around V :=
  let count := a.process.mExecutingThreadsCount - 1
  { a with process := { a.process with
      mExecutingThreadsCount := count
      mStarvationStartTimeMs :=
        if count < a.process.mMaxThreads then 0 else a.process.mStarvationStartTimeMs } }

/-- `IPCThreadState_getAndExecuteCommand` -/
def getAndExecuteCommand : Prog (PoolThread V) Fault Int := do
  let result ← talkWithDriver x
  if result ≥ STATUS_OK then do
    let a ← around
    match a.mIn with
    | [] => pure result
    | cmd :: rest => do
      update fun a => { a with mIn := rest }
      update (beginExecuting x)
      let result ← executeCommand x cmd
      update endExecuting
      pure result
  else pure result

/-! ## The loop -/

/-- A turn of the loop of `joinThreadPool`. -/
def poolTurn (fuel : Nat) : Prog (PoolThread V) Fault Int := do
  processPendingDerefs x.callees fuel
  let result ← getAndExecuteCommand x
  if result < STATUS_OK ∧ result ≠ STATUS_TIMED_OUT ∧ result ≠ -ECONNREFUSED ∧ result ≠ -EBADF then
    fault (.logFatal "getAndExecuteCommand returned unexpected error, aborting")
  else pure result

/-- The result ends the loop. -/
def leaves (isMain : Bool) (result : Int) : Bool :=
  decide (result = STATUS_TIMED_OUT ∧ isMain = false) ||
    decide (result = -ECONNREFUSED ∨ result = -EBADF)

/-- The loop, one turn for each bound on the derefs that it works off. -/
def poolLoop (isMain : Bool) : List Nat → Prog (PoolThread V) Fault Unit
  | [] => fault .tooDeep
  | fuel :: turns => do
    let result ← poolTurn x fuel
    if leaves isMain result = true then pure () else poolLoop isMain turns

/-- What `joinThreadPool` does before the loop. -/
def joined (isMain : Bool) (a : Around V) : Around V :=
  { a with
    mIsLooper := true
    mOut := a.mOut ++ [if isMain then .BC_ENTER_LOOPER else .BC_REGISTER_LOOPER]
    process := { a.process with mCurrentThreads := a.process.mCurrentThreads + 1 } }

/-- What `joinThreadPool` does after the loop. The last talk with the driver reads nothing. -/
def leavePool : Prog (PoolThread V) Fault Unit := do
  update fun a => { a with mOut := a.mOut ++ [.BC_EXIT_LOOPER], mIsLooper := false }
  let a ← around
  if x.mDriverFD a < 0 then pure () else do
    let _ ← called x.ioctl
    pure ()
  let a ← around
  if a.process.mCurrentThreads = 0 then
    fault (.logFatal "Threadpool thread count = 0. Thread cannot exist and exit in empty threadpool")
  else update fun a =>
    { a with process := { a.process with mCurrentThreads := a.process.mCurrentThreads - 1 } }

/-- `IPCThreadState_joinThreadPool` -/
def joinThreadPool (isMain : Bool) (turns : List Nat) : Prog (PoolThread V) Fault Unit := do
  update (joined isMain)
  poolLoop x isMain turns
  leavePool x

/-! ## Derefs and the buffer -/

variable {x : PoolCalls V} {isMain : Bool} {s s' : PoolThread V} {q : Queues (Pool V)} {n : Nat}

/-- Whatever was entered after the first `n` found `mIn` consumed. -/
def ConsumedFrom (n : Nat) (w : Pool V) : Prop := ∀ left ∈ w.entered.drop n, left = []

/-- Every deref that is begun from here on finds `mIn` consumed, however many there are, and
so does every one of a loop that comes to its end. -/
structure FindsConsumed (x : PoolCalls V) (s : PoolThread V) : Prop where
  begun : ∀ k, ConsumedFrom s.world.entered.length ((Queues.turn x.callees)^[k] s.queues).world
  returned : ∀ fuel, wp (processPendingDerefs x.callees fuel)
    (fun _ s' => ConsumedFrom s.world.entered.length s'.world) (fun _ => True) s

/-- The destructors that are entered from here on leave a consumed `mIn` consumed. -/
def LeavesConsumed (x : PoolCalls V) (s : PoolThread V) : Prop :=
  ∀ k, ((Queues.turn x.callees)^[k] s.queues).world.mIn = [] →
    ((Queues.turn x.callees)^[k + 1] s.queues).world.mIn = []

/-- Nothing is pending, or `mIn` is consumed and destructors leave it so. -/
def Ready (x : PoolCalls V) (s : PoolThread V) : Prop :=
  s.queues.pending = 0 ∨ (s.world.mIn = [] ∧ LeavesConsumed x s)

/-- A destructor that is entered with a consumed `mIn` finds it so. -/
theorem ConsumedFrom.enter {call : Call V Unit} {w : Pool V} (h : ConsumedFrom n w)
    (hconsumed : w.mIn = []) : ConsumedFrom n (enter call w).2 := by
  intro left hleft
  have hsplit : left ∈ (w.entered ++ [w.mIn]).drop n := hleft
  rw [List.drop_append, List.mem_append] at hsplit
  rcases hsplit with hold | hnew
  · exact h left hold
  · rw [List.mem_singleton.mp (List.mem_of_mem_drop hnew)]
    exact hconsumed

theorem ConsumedFrom.turn (h : ConsumedFrom n q.world) (hconsumed : q.world.mIn = []) :
    ConsumedFrom n (q.turn x.callees).world := by
  unfold Queues.turn
  split
  · exact h.enter hconsumed
  · exact h.enter hconsumed
  · exact h

theorem consumedFrom_start (w : Pool V) : ConsumedFrom w.entered.length w := by
  intro left hleft
  rw [List.drop_length] at hleft
  cases hleft

theorem turns_idle (h : s.queues.pending = 0) (k : Nat) :
    (Queues.turn x.callees)^[k] s.queues = s.queues :=
  Function.iterate_fixed (Queues.turn_idle h) k

theorem LeavesConsumed.turns (h : LeavesConsumed x s) (hconsumed : s.world.mIn = []) (k : Nat) :
    ((Queues.turn x.callees)^[k] s.queues).world.mIn = [] := by
  induction k with
  | zero => exact hconsumed
  | succ k ih => exact h k ih

theorem Ready.begun (h : Ready x s) (k : Nat) :
    ConsumedFrom s.world.entered.length ((Queues.turn x.callees)^[k] s.queues).world := by
  rcases h with hidle | ⟨hconsumed, hx⟩
  · rw [turns_idle hidle]
    exact consumedFrom_start _
  · induction k with
    | zero => exact consumedFrom_start _
    | succ k ih =>
      rw [Function.iterate_succ_apply']
      exact ih.turn (hx.turns hconsumed k)

/-- What holds of every turn of the queues holds where the loop ends. -/
theorem findsConsumed_iff (hs : s.Stored) : FindsConsumed x s ↔
    ∀ k, ConsumedFrom s.world.entered.length
      ((Queues.turn x.callees)^[k] s.queues).world := by
  refine ⟨FindsConsumed.begun, fun h => ⟨h, fun fuel => ?_⟩⟩
  apply wp_imp processPendingDerefs.turns
  rintro _ s' ⟨⟨k, hturns⟩, -⟩
  obtain ⟨-, hqueues, -⟩ := hturns.queues hs
  have hworld : s'.world = ((Queues.turn x.callees)^[k] s.queues).world :=
    congrArg Queues.world hqueues
  rw [hworld]
  exact h k

/-- The first deref that is begun finds what is left in `mIn`. -/
theorem FindsConsumed.consumed (h : FindsConsumed x s) (hpending : s.queues.pending ≠ 0) :
    s.world.mIn = [] := by
  apply h.begun 1
  rw [Function.iterate_one]
  have hentered : (s.queues.turn x.callees).world.entered =
      s.world.entered ++ [s.world.mIn] := by
    unfold Queues.turn
    split
    · rfl
    · rfl
    · rename_i hweak hstrong
      exact absurd (Queues.pending_eq_zero_iff.mpr ⟨hweak, hstrong⟩) hpending
  rw [hentered, List.drop_left]
  exact List.mem_singleton_self _

theorem FindsConsumed.ready (hx : LeavesConsumed x s) (h : FindsConsumed x s) : Ready x s := by
  by_cases hpending : s.queues.pending = 0
  · exact .inl hpending
  · exact .inr ⟨h.consumed hpending, hx⟩

/-! ## The vectors stay well formed -/

/-- From well-formed vectors the program comes to well-formed vectors. -/
abbrev StaysStored (m : Prog (PoolThread V) Fault α) : Prop :=
  Keeps (fun s s' => s.Stored → s'.Stored) (fun _ _ => True) m

theorem stored_frame : Frame (fun s s' : PoolThread V => s.Stored → s'.Stored)
    fun _ (_ : Fault) => True where
  refl _ := id
  trans h h' := h' ∘ h
  stops _ _ := trivial

theorem called.stored (call : Call V α) : StaysStored (called call) := by
  intro s
  by_cases hs : s.Stored
  · have hworld : ({ s with world := ⟨(call s.world.toAround).2.2, s.world.entered⟩ } :
        PoolThread V).Stored := ⟨hs.weak, hs.strong⟩
    unfold wp called
    dsimp only
    rcases pushAll_cases (call s.world.toAround).2.1 hworld with
      ⟨-, s', hok, hs', -⟩ | ⟨-, herror⟩
    · rw [hok]
      exact fun _ => hs'
    · rw [herror]
      trivial
  · exact wp_of_all (fun _ _ h => absurd h hs) fun _ => trivial

theorem update.stored (f : Around V → Around V) : StaysStored (update f) :=
  fun _ hs => ⟨hs.weak, hs.strong⟩

theorem around.stored : StaysStored (around : Prog (PoolThread V) Fault (Around V)) := fun _ => id

theorem talkWithDriver.stored : StaysStored (talkWithDriver x) := by
  refine stored_frame.bind around.stored fun a => .ite (stored_frame.pure _) ?_
  refine .ite (stored_frame.pure _) (stored_frame.bind (called.stored _) fun answer => ?_)
  split
  · exact stored_frame.pure _
  · exact stored_frame.pure _
  · exact stored_frame.bind (update.stored _) fun _ => stored_frame.pure _

theorem executeCommand.stored (cmd : ReturnCommand) : StaysStored (executeCommand x cmd) := by
  unfold executeCommand
  split
  · refine stored_frame.bind around.stored fun a => .ite (called.stored _) ?_
    exact fun _ => trivial
  · exact called.stored _
  · exact called.stored _

theorem getAndExecuteCommand.stored : StaysStored (getAndExecuteCommand x) := by
  refine stored_frame.bind talkWithDriver.stored fun result => .ite ?_ (stored_frame.pure _)
  refine stored_frame.bind around.stored fun a => ?_
  split
  · exact stored_frame.pure _
  · refine stored_frame.bind (update.stored _) fun _ => ?_
    refine stored_frame.bind (update.stored _) fun _ => ?_
    refine stored_frame.bind (executeCommand.stored _) fun _ => ?_
    exact stored_frame.bind (update.stored _) fun _ => stored_frame.pure _

theorem poolTurn.stored (fuel : Nat) : StaysStored (poolTurn x fuel) := by
  have hderefs : StaysStored (processPendingDerefs x.callees fuel) := by
    intro s
    apply wp_imp processPendingDerefs.turns
    rintro _ s' ⟨⟨k, hturns⟩, -⟩ hs
    exact (hturns.queues hs).1
  refine stored_frame.bind hderefs fun _ => ?_
  refine stored_frame.bind getAndExecuteCommand.stored fun result => .ite ?_ (stored_frame.pure _)
  exact fun _ => trivial

/-! ## The turns of the loop -/

/-- A turn after which the loop goes on. -/
def stays (x : PoolCalls V) (isMain : Bool) (fuel : Nat) (s : PoolThread V) :
    Option (PoolThread V) :=
  match poolTurn x fuel s with
  | .ok (result, s') => if leaves isMain result = true then none else some s'
  | .error _ => none

theorem stays_eq_some {fuel : Nat} : stays x isMain fuel s = some s' ↔
    ∃ result, poolTurn x fuel s = .ok (result, s') ∧ leaves isMain result = false := by
  unfold stays
  rcases poolTurn x fuel s with e | ⟨result, t⟩
  · simp
  · cases hleaves : leaves isMain result with
    | true => simp [hleaves]
    | false => simp [hleaves]

/-- The loop is where its turns come to. -/
theorem poolLoop_after {turns rest : List Nat} (h : after (stays x isMain) turns s = some s') :
    poolLoop x isMain (turns ++ rest) s = poolLoop x isMain rest s' := by
  induction turns generalizing s with
  | nil =>
    cases h
    rfl
  | cons fuel turns ih =>
    rw [after_cons, Option.bind_eq_some_iff] at h
    obtain ⟨s₁, hone, hrest⟩ := h
    obtain ⟨result, hturn, hgoes⟩ := stays_eq_some.mp hone
    rw [← ih hrest, List.cons_append]
    show (poolTurn x fuel s >>= fun p : Int × PoolThread V =>
      (if leaves isMain p.1 = true then pure () else poolLoop x isMain (turns ++ rest) :
        Prog (PoolThread V) Fault Unit) p.2) = _
    rw [hturn]
    show (if leaves isMain result = true then pure () else poolLoop x isMain (turns ++ rest) :
      Prog (PoolThread V) Fault Unit) s₁ = _
    rw [hgoes]
    rfl

/-- Where the loop of `joinThreadPool` begins. -/
def joins (isMain : Bool) (s : PoolThread V) : PoolThread V :=
  { s with world := ⟨joined isMain s.world.toAround, s.world.entered⟩ }

/-- `joinThreadPool` is where the turns of its loop come to. -/
theorem joinThreadPool_after {turns rest : List Nat}
    (h : after (stays x isMain) turns (joins isMain s) = some s') :
    joinThreadPool x isMain (turns ++ rest) s =
      (do poolLoop x isMain rest; leavePool x : Prog (PoolThread V) Fault Unit) s' := by
  show (poolLoop x isMain (turns ++ rest) (joins isMain s) >>=
    fun p : Unit × PoolThread V => leavePool x p.2) = _
  rw [poolLoop_after h]
  rfl

/-! ## Buffers that end with their derefs -/

/-- The command puts a deref off. -/
def putsOff : ReturnCommand → Bool
  | .BR_RELEASE _ _ | .BR_DECREFS _ _ => true
  | _ => false

/-- No command follows one that puts a deref off. -/
def DerefsLast (cmds : List ReturnCommand) : Prop := ∀ cmd ∈ cmds.dropLast, putsOff cmd = false

/-- The driver writes such buffers, and the other commands put nothing off. Where they read on,
they leave the end of such a buffer. -/
structure PoolCalls.EndsWithDerefs (x : PoolCalls V) : Prop where
  ioctl : ∀ a, a.mIn = [] → (x.ioctl a).2.1 = [] ∧ (x.ioctl a).2.2.mIn = [] ∧
    ∀ cmds, (x.ioctl a).1 = .ok cmds → DerefsLast cmds
  execute : ∀ cmd a, putsOff cmd = false → DerefsLast a.mIn →
    (x.execute cmd a).2.1 = [] ∧ DerefsLast (x.execute cmd a).2.2.mIn

/-- Nothing is pending, or what put it off was the last of its buffer. -/
structure Orderly (s : PoolThread V) : Prop where
  stored : s.Stored
  mIn : DerefsLast s.world.mIn
  pending : s.queues.pending = 0 ∨ s.world.mIn = []

/-- Nothing is pending. -/
structure Rested (s : PoolThread V) : Prop where
  stored : s.Stored
  mIn : DerefsLast s.world.mIn
  pending : s.queues.pending = 0

theorem derefsLast_nil : DerefsLast [] := by
  intro cmd hcmd
  cases hcmd

theorem DerefsLast.tail {cmd : ReturnCommand} {rest : List ReturnCommand}
    (h : DerefsLast (cmd :: rest)) : DerefsLast rest := by
  intro c hc
  apply h c
  cases rest with
  | nil => cases hc
  | cons d rest =>
    rw [List.dropLast_cons_cons]
    exact List.mem_cons_of_mem cmd hc

theorem DerefsLast.head {cmd : ReturnCommand} {rest : List ReturnCommand}
    (h : DerefsLast (cmd :: rest)) (hcmd : putsOff cmd = true) : rest = [] := by
  cases rest with
  | nil => rfl
  | cons d rest =>
    have hnot := h cmd (by rw [List.dropLast_cons_cons]; exact List.mem_cons_self)
    rw [hcmd] at hnot
    cases hnot

theorem wp_around {Q : Around V → PoolThread V → Prop} {E : Fault → Prop} :
    wp around Q E s ↔ Q s.world.toAround s := Iff.rfl

theorem wp_update {Q : Unit → PoolThread V → Prop} {E : Fault → Prop} (f : Around V → Around V) :
    wp (update f) Q E s ↔ Q () { s with world := ⟨f s.world.toAround, s.world.entered⟩ } := Iff.rfl

/-- A call that puts nothing off returns. -/
theorem called_of_nil {call : Call V α} {Q : α → PoolThread V → Prop} {E : Fault → Prop}
    (hnone : (call s.world.toAround).2.1 = []) :
    wp (called call) Q E s ↔ Q (call s.world.toAround).1
      { s with world := ⟨(call s.world.toAround).2.2, s.world.entered⟩ } := by
  unfold wp called
  dsimp only
  rw [hnone]
  exact Iff.rfl

theorem talkWithDriver.rested (hx : x.EndsWithDerefs) (h : Rested s) :
    wp (talkWithDriver x) (fun _ s' => Rested s') (fun _ => True) s := by
  unfold talkWithDriver
  rw [wp_bind, wp_around, wp_ite, wp_ite, ne_eq, not_not]
  refine ⟨fun _ => h, fun _ => ⟨fun _ => h, fun hconsumed => ?_⟩⟩
  obtain ⟨hnone, hstays, hlast⟩ := hx.ioctl s.world.toAround hconsumed
  have hread : ∀ cmds, DerefsLast cmds → Rested (V := V)
      { s with world := ⟨{ (x.ioctl s.world.toAround).2.2 with mIn := cmds }, s.world.entered⟩ } :=
    fun cmds hcmds => ⟨⟨h.stored.weak, h.stored.strong⟩, hcmds, h.pending⟩
  have hunread : Rested (V := V)
      { s with world := ⟨(x.ioctl s.world.toAround).2.2, s.world.entered⟩ } := by
    refine ⟨⟨h.stored.weak, h.stored.strong⟩, ?_, h.pending⟩
    dsimp only
    rw [hstays]
    exact derefsLast_nil
  rw [wp_bind, called_of_nil hnone]
  split
  · exact hunread
  · exact hunread
  · rename_i cmds hcmds hok
    exact hread _ (hlast _ hok)

/-- A deref is put off by the last command of a buffer. -/
theorem executeCommand.orderly (hx : x.EndsWithDerefs) {cmd : ReturnCommand} (h : Rested s)
    (hlast : putsOff cmd = true → s.world.mIn = []) :
    wp (executeCommand x cmd) (fun _ s' => Orderly s') (fun _ => True) s := by
  have hputOff : ∀ deref, s.world.mIn = [] →
      wp (putOff x deref) (fun _ s' => Orderly s') (fun _ => True) s := by
    intro deref hconsumed
    have hs : ({ s with world := ⟨s.world.toAround, s.world.entered⟩ } : PoolThread V).Stored :=
      h.stored
    unfold wp putOff called
    dsimp only
    rcases pushAll_cases [⟨deref, x.granted s.world.toAround⟩] hs with
      ⟨-, s', hok, hs', hqueues⟩ | ⟨-, herror⟩
    · rw [hok]
      have hmIn : s'.world.mIn = [] := by
        have hworld : s'.world = s.world := congrArg Queues.world hqueues
        rw [hworld]
        exact hconsumed
      refine ⟨hs', ?_, .inr hmIn⟩
      rw [hmIn]
      exact derefsLast_nil
    · rw [herror]
      trivial
  unfold executeCommand
  split
  · rw [wp_bind, wp_around, wp_ite]
    exact ⟨fun _ => hputOff _ (hlast rfl), fun _ => trivial⟩
  · exact hputOff _ (hlast rfl)
  · rename_i hrelease hdecrefs
    have hother : putsOff cmd = false := by
      unfold putsOff
      split
      · exact (hrelease _ _ rfl).elim
      · exact (hdecrefs _ _ rfl).elim
      · rfl
    obtain ⟨hnone, hmIn⟩ := hx.execute cmd s.world.toAround hother h.mIn
    rw [called_of_nil hnone]
    exact ⟨⟨h.stored.weak, h.stored.strong⟩, hmIn, .inl h.pending⟩

theorem getAndExecuteCommand.orderly (hx : x.EndsWithDerefs) (h : Rested s) :
    wp (getAndExecuteCommand x) (fun _ s' => Orderly s') (fun _ => True) s := by
  have hrested : ∀ t : PoolThread V, Rested t → Orderly t :=
    fun t ht => ⟨ht.stored, ht.mIn, .inl ht.pending⟩
  unfold getAndExecuteCommand
  rw [wp_bind]
  apply wp_imp (talkWithDriver.rested hx h)
  intro result t ht
  rw [wp_ite, wp_bind, wp_around]
  refine ⟨fun _ => ?_, fun _ => hrested t ht⟩
  split
  · exact hrested t ht
  · rename_i cmd rest hcmds
    have hmIn := ht.mIn
    rw [hcmds] at hmIn
    rw [wp_bind, wp_update, wp_bind, wp_update, wp_bind]
    refine wp_imp (executeCommand.orderly hx ?_ ?_) ?_
    · exact ⟨⟨ht.stored.weak, ht.stored.strong⟩, hmIn.tail, ht.pending⟩
    · exact hmIn.head
    · intro _ u hu
      exact ⟨⟨hu.stored.weak, hu.stored.strong⟩, hu.mIn, hu.pending⟩

theorem Orderly.ready (h : Orderly s) (hx : LeavesConsumed x s) : Ready x s :=
  h.pending.imp_right fun hconsumed => ⟨hconsumed, hx⟩

/-- After the derefs nothing is pending, and nothing was read where something was. -/
theorem Orderly.rested {fuel : Nat} (h : Orderly s) (hx : LeavesConsumed x s) :
    wp (processPendingDerefs x.callees fuel) (fun _ s' => Rested s') (fun _ => True) s := by
  apply wp_imp processPendingDerefs.turns
  rintro _ s' ⟨⟨k, hturns⟩, hidle⟩
  obtain ⟨hs', hqueues, -⟩ := hturns.queues h.stored
  have hworld : s'.world = ((Queues.turn x.callees)^[k] s.queues).world :=
    congrArg Queues.world hqueues
  refine ⟨hs', ?_, hidle⟩
  rw [hworld]
  rcases h.pending with hnone | hconsumed
  · rw [turns_idle hnone]
    exact h.mIn
  · rw [hx.turns hconsumed]
    exact derefsLast_nil

/-- A turn of the loop leaves a deref pending only where its command was the last of its buffer. -/
theorem Orderly.stays {fuel : Nat} (hx : x.EndsWithDerefs) (h : Orderly s)
    (hleaves : LeavesConsumed x s) (hstays : stays x isMain fuel s = some s') : Orderly s' := by
  obtain ⟨result, hturn, -⟩ := stays_eq_some.mp hstays
  have horderly : wp (poolTurn x fuel) (fun _ t => Orderly t) (fun _ => True) s := by
    unfold poolTurn
    rw [wp_bind]
    apply wp_imp (h.rested hleaves)
    intro _ t ht
    rw [wp_bind]
    apply wp_imp (getAndExecuteCommand.orderly hx ht)
    intro _ u hu
    rw [wp_ite]
    exact ⟨fun _ => trivial, fun _ => hu⟩
  exact horderly.of_ok hturn

/-- `joinThreadPool` goes from turn to turn of its loop. The derefs of every turn find `mIn`
consumed where every turn begins with nothing pending, or with a consumed `mIn` and destructors that
leave it so. Where destructors leave it so, that is the only way, and buffers that end with their
derefs see to it. -/
theorem derefs_find_the_buffer_consumed_where_it_was (x : PoolCalls V) (isMain : Bool)
    (turns : List Nat) (s : PoolThread V) (hs : s.Stored) :
    (∀ done rest entry t, after (stays x isMain) done (joins isMain entry) = some t →
      joinThreadPool x isMain (done ++ rest) entry =
        (do poolLoop x isMain rest; leavePool x : Prog (PoolThread V) Fault Unit) t) ∧
    (Meets (stays x isMain) (fun _ t => Ready x t) turns s →
      Meets (stays x isMain) (fun _ t => FindsConsumed x t) turns s) ∧
    (Meets (stays x isMain) (fun _ t => LeavesConsumed x t ∧ FindsConsumed x t) turns s →
      Meets (stays x isMain) (fun _ t => Ready x t) turns s) ∧
    (x.EndsWithDerefs → Orderly s →
      Meets (stays x isMain) (fun _ t => LeavesConsumed x t) turns s →
      Meets (stays x isMain) (fun _ t => Ready x t) turns s) := by
  have hkept : ∀ fuel t t', stays x isMain fuel t = some t' → t.Stored → t'.Stored := by
    intro fuel t t' hstays ht
    obtain ⟨result, hturn, -⟩ := stays_eq_some.mp hstays
    exact (poolTurn.stored fuel t).of_ok hturn ht
  refine ⟨fun done rest entry t h => joinThreadPool_after h, fun h => ?_, fun h => ?_,
    fun hx ho h => ?_⟩
  · refine h.imp_of_inv Thread.Stored ?_ (fun fuel t t' hstays _ => hkept fuel t t' hstays) hs
    intro _ t ht hready
    exact (findsConsumed_iff ht).mpr hready.begun
  · refine h.imp_of_inv Thread.Stored ?_ (fun fuel t t' hstays _ => hkept fuel t t' hstays) hs
    intro _ t _ hfinds
    exact hfinds.2.ready hfinds.1
  · refine h.imp_of_inv Orderly (fun _ t ht hleaves => ht.ready hleaves) ?_ ho
    intro fuel t t' hstays hleaves ht
    exact ht.stays hx hleaves hstays

/-- The driver writes the same buffer whenever it is asked, and the binders of the process have no
destructors. -/
def quietPool (buffer : List ReturnCommand) : PoolCalls Unit where
  mDriverFD := fun _ => 3
  ioctl := fun a => (.ok buffer, [], a)
  execute := fun _ a => (STATUS_OK, [], a)
  refBase := fun refs _ => refs + 8
  decWeak := fun _ a => ((), [], a)
  decStrong := fun _ a => ((), [], a)
  granted := fun _ => true
  uptimeMillis := fun _ => 0

/-- A thread that has read nothing yet. -/
def freshPool : PoolThread Unit where
  mPendingWeakDerefs := .ctor
  mPendingStrongDerefs := .ctor
  mInDataPos := 0
  world := ⟨⟨[], [], true, ⟨15, 1, 0, 0⟩, ()⟩, []⟩

theorem freshPool_stored (isMain : Bool) : (joins isMain freshPool).Stored := ⟨.ctor, .ctor⟩

theorem quietPool_leavesConsumed (buffer : List ReturnCommand) (s : PoolThread Unit) :
    LeavesConsumed (quietPool buffer) s := by
  intro k hconsumed
  rw [Function.iterate_succ_apply']
  unfold Queues.turn
  split
  · exact hconsumed
  · exact hconsumed
  · exact hconsumed

/-- One `BR_RELEASE` at the end of each buffer is performed before the next buffer is read. -/
theorem derefs_find_single_commands_consumed :
    Meets (stays (quietPool [.BR_NOOP, .BR_RELEASE 8 16]) true)
      (fun _ t => FindsConsumed (quietPool [.BR_NOOP, .BR_RELEASE 8 16]) t) [4, 4, 4]
      (joins true freshPool) := by
  have hlast : DerefsLast [.BR_NOOP, .BR_RELEASE 8 16] := by
    intro cmd hcmd
    cases List.mem_singleton.mp hcmd
    rfl
  have hx : (quietPool [.BR_NOOP, .BR_RELEASE 8 16]).EndsWithDerefs := by
    refine ⟨fun a ha => ⟨rfl, ha, fun cmds hcmds => ?_⟩, fun _ _ _ hmIn => ⟨rfl, hmIn⟩⟩
    cases hcmds
    exact hlast
  have hleaves : Meets (stays (quietPool [.BR_NOOP, .BR_RELEASE 8 16]) true)
      (fun _ t => LeavesConsumed (quietPool [.BR_NOOP, .BR_RELEASE 8 16]) t) [4, 4, 4]
      (joins true freshPool) :=
    meets_true.imp_of_inv (fun _ => True) (fun _ t _ _ => quietPool_leavesConsumed _ t)
      (fun _ _ _ _ _ _ => trivial) trivial
  obtain ⟨-, hfinds, -, hready⟩ := derefs_find_the_buffer_consumed_where_it_was
    (quietPool [.BR_NOOP, .BR_RELEASE 8 16]) true [4, 4, 4] (joins true freshPool)
    (freshPool_stored true)
  exact hfinds (hready hx ⟨freshPool_stored true, derefsLast_nil, .inl rfl⟩ hleaves)

/-- The binder that the first command of a buffer releases is released before the second. -/
theorem derefs_do_not_wait_for_the_buffer :
    ¬∀ (x : PoolCalls Unit) (isMain : Bool) (turns : List Nat) (s : PoolThread Unit), s.Stored →
      Meets (stays x isMain) (fun _ t => FindsConsumed x t) turns s := by
  intro h
  have hrun := h (quietPool [.BR_RELEASE 8 16, .BR_ACQUIRE 8 16]) true [4, 4]
    (joins true freshPool) (freshPool_stored true)
  obtain ⟨t, ht, hleft⟩ : ∃ t, stays (quietPool [.BR_RELEASE 8 16, .BR_ACQUIRE 8 16]) true 4
      (joins true freshPool) = some t ∧ t.queues.pending ≠ 0 ∧ t.world.mIn ≠ [] :=
    ⟨_, rfl, by decide, by decide⟩
  exact hleft.2 ((hrun.2 t ht).1.consumed hleft.1)

end system_binder.IPCThreadState
