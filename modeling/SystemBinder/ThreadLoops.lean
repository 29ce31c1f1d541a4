-- The loop of a BinderThread: there is at most one, mRunning says so as long as it lasts, and its
-- thread never waits for its own end.
import SystemBinder.ThreadLocks

open prog

namespace system_binder.BinderThread

variable {threadId : Tid → BitVec 32} {t u : Tid} {s s' : Process} {place place' : Place}
  {callers callers' : List Caller}

/-! ## The thread of the loop -/

/-- The places at the end of a turn. -/
def Place.turns : Place → Bool
  | .turned _ | .judges _ => true
  | _ => false

/-- The places from the first wait for `mThreadExitedCondition` on. -/
def Place.waiting : Place → Bool
  | .waits _ | .woken _ | .relocked _ => true
  | _ => false

/-- The thread was made for the loop. -/
def Thread.loops : Thread → Bool
  | .unborn => false
  | .alive place callers => place.turns || !callers.isEmpty
  | .ended => true

/-- The thread is in the loop still. -/
def Thread.inLoop : Thread → Bool
  | .alive place callers => place.turns || !callers.isEmpty
  | _ => false

theorem Thread.loops_of_inLoop {thread : Thread} (h : thread.inLoop = true) :
    thread.loops = true := by
  cases thread with
  | alive place callers => exact h
  | _ => cases h

/-- At most one thread was made for the loop. As long as it is in the loop, `mRunning` is set,
`mThread` is its name, and it does not wait for the end. A thread that ended has the mutex. -/
structure OneLoop (threadId : Tid → BitVec 32) (s : Process) : Prop where
  inside : Alone s
  alone : ∀ t u, (s.threads t).loops = true → (s.threads u).loops = true → t = u
  running : s.this.mRunning = true ↔ ∃ t, (s.threads t).inLoop = true
  ended : ∀ t, s.threads t = .ended → s.mLock = some t
  own : ∀ t place callers, s.threads t = .alive place callers →
    (Thread.alive place callers).inLoop = true →
    s.this.mThread = threadId t ∧ place.waiting = false

/-- Where a thread has the mutex, none has ended. -/
theorem OneLoop.no_end (h : OneLoop threadId s) (hthread : s.Inside t) :
    ∀ u, s.threads u ≠ .ended := by
  intro u hu
  have hlock := h.ended u hu
  rw [h.inside t hthread] at hlock
  cases hlock
  unfold Process.Inside at hthread
  rw [hu] at hthread
  cases hthread

theorem OneLoop.no_end_of_free (h : OneLoop threadId s) (hfree : s.mLock = none) :
    ∀ u, s.threads u ≠ .ended := by
  intro u hu
  have hlock := h.ended u hu
  rw [hfree] at hlock
  cases hlock

theorem Thread.inLoop_of_loops {thread : Thread} (hne : thread ≠ .ended)
    (h : thread.loops = true) : thread.inLoop = true := by
  cases thread with
  | unborn => cases h
  | alive place callers => exact h
  | ended => exact absurd rfl hne

/-- A thread that goes elsewhere, in the loop or not as before. -/
theorem OneLoop.moved (h : OneLoop threadId s) (halone : Alone s')
    (hthread : s.threads t = .alive place callers)
    (hthreads : s'.threads = Function.update s.threads t (.alive place' callers'))
    (hloops : (Thread.alive place' callers').loops = (Thread.alive place callers).loops)
    (hwaits : (Thread.alive place callers).loops = true → place'.waiting = false)
    (hrunning : s'.this.mRunning = s.this.mRunning) (hname : s'.this.mThread = s.this.mThread)
    (hlock : s'.mLock = s.mLock ∨ ∀ u, s.threads u ≠ .ended) : OneLoop threadId s' := by
  have hself : s'.threads t = .alive place' callers' := by rw [hthreads, Function.update_self]
  have hother : ∀ u, u ≠ t → s'.threads u = s.threads u := fun u hu => by
    rw [hthreads, Function.update_of_ne hu]
  have hsame : ∀ u, (s'.threads u).loops = (s.threads u).loops ∧
      (s'.threads u).inLoop = (s.threads u).inLoop := by
    intro u
    by_cases hu : u = t
    · rw [hu, hself, hthread]
      exact ⟨hloops, hloops⟩
    · rw [hother u hu]
      exact ⟨rfl, rfl⟩
  refine ⟨halone, fun u v hu hv => ?_, ?_, fun u hu => ?_, fun u place₁ callers₁ hu hin => ?_⟩
  · rw [(hsame _).1] at hu hv
    exact h.alone u v hu hv
  · rw [hrunning, h.running]
    exact exists_congr fun u => by rw [(hsame u).2]
  · have hne : u ≠ t := by
      rintro rfl
      rw [hself] at hu
      cases hu
    rw [hother u hne] at hu
    rcases hlock with hlock | hnone
    · rw [hlock]
      exact h.ended u hu
    · exact absurd hu (hnone u)
  · rw [hname]
    by_cases hne : u = t
    · subst hne
      rw [hself] at hu
      cases hu
      have hin' : (Thread.alive place callers).inLoop = true := hloops.symm.trans hin
      exact ⟨(h.own u place callers hthread hin').1, hwaits hin'⟩
    · rw [hother u hne] at hu
      exact h.own u place₁ callers₁ hu hin

/-! ## Steps -/

/-- Where a function returns to, the thread is in the loop as before. -/
theorem loops_resume (answer : Answer) (hplace : place.turns = false) :
    (Thread.alive (Process.resume answer callers).1 (Process.resume answer callers).2).loops =
      (Thread.alive place callers).loops := by
  have hbefore : (Thread.alive place callers).loops = !callers.isEmpty := by
    simp [Thread.loops, hplace]
  rw [hbefore]
  unfold Process.resume
  split
  · split <;> rfl
  · rfl

theorem waiting_resume (answer : Answer) :
    (Process.resume answer callers).1.waiting = false := by
  unfold Process.resume
  split
  · split <;> rfl
  · rfl

/-- A function returns. -/
theorem OneLoop.giveBack {s₁ : Process} {answer : Answer} (h : OneLoop threadId s)
    (halone : Alone (s₁.giveBack t answer callers))
    (hthread : s.threads t = .alive place callers) (hplace : place.turns = false)
    (hthreads : s₁.threads = s.threads) (hrunning : s₁.this.mRunning = s.this.mRunning)
    (hname : s₁.this.mThread = s.this.mThread)
    (hlock : s₁.mLock = s.mLock ∨ ∀ u, s.threads u ≠ .ended) :
    OneLoop threadId (s₁.giveBack t answer callers) := by
  refine h.moved halone hthread ?_ (loops_resume answer hplace) (fun _ => waiting_resume answer)
    hrunning hname hlock
  unfold Process.giveBack Process.goTo
  rw [← hthreads]

/-- A thread goes on in the function that it is in, or into one. -/
theorem OneLoop.goTo {s₁ : Process} (h : OneLoop threadId s)
    (halone : Alone (s₁.goTo t place' callers')) (hthread : s.threads t = .alive place callers)
    (hloops : (Thread.alive place' callers').loops = (Thread.alive place callers).loops)
    (hwaits : (Thread.alive place callers).loops = true → place'.waiting = false)
    (hthreads : s₁.threads = s.threads) (hrunning : s₁.this.mRunning = s.this.mRunning)
    (hname : s₁.this.mThread = s.this.mThread)
    (hlock : s₁.mLock = s.mLock ∨ ∀ u, s.threads u ≠ .ended) :
    OneLoop threadId (s₁.goTo t place' callers') := by
  refine h.moved halone hthread ?_ hloops hwaits hrunning hname hlock
  unfold Process.goTo
  rw [← hthreads]

/-- Without a loop there is nothing to say. -/
theorem OneLoop.of_none (halone : Alone s) (hnone : ∀ t, (s.threads t).loops = false)
    (hrunning : s.this.mRunning = false) : OneLoop threadId s where
  inside := halone
  alone t u ht := by
    rw [hnone t] at ht
    cases ht
  running := by
    rw [hrunning]
    refine ⟨fun h => (by cases h), fun ⟨t, ht⟩ => ?_⟩
    have hloops := Thread.loops_of_inLoop ht
    rw [hnone t] at hloops
    cases hloops
  ended t ht := by
    have hloops := hnone t
    rw [ht] at hloops
    cases hloops
  own t place callers ht hin := by
    have hloops := hnone t
    rw [ht] at hloops
    rw [show (Thread.alive place callers).inLoop = (Thread.alive place callers).loops from rfl,
      hloops] at hin
    cases hin

/-- Between the lock and the unlock, without a loop that runs, there is none. -/
theorem OneLoop.none (h : OneLoop threadId s) (hthread : s.Inside t)
    (hrunning : s.this.mRunning = false) : ∀ u, (s.threads u).loops = false := by
  intro u
  cases hloops : (s.threads u).loops with
  | false => rfl
  | true =>
    have hin := Thread.inLoop_of_loops (h.no_end hthread u) hloops
    have htrue := h.running.mpr ⟨u, hin⟩
    rw [hrunning] at htrue
    cases htrue

/-- After `pthread_create` made the first thread of a loop. -/
theorem OneLoop.of_child {child : Tid} (halone : Alone s') (hne : t ≠ child)
    (hthreads : s'.threads = Function.update (Function.update s.threads child
      (.alive .elsewhere [.readyToRun])) t (.alive .elsewhere []))
    (hnone : ∀ u, (s.threads u).loops = false) (hrunning : s'.this.mRunning = true)
    (hname : s'.this.mThread = threadId child) : OneLoop threadId s' := by
  have hchild : s'.threads child = .alive .elsewhere [.readyToRun] := by
    rw [hthreads, Function.update_of_ne (Ne.symm hne), Function.update_self]
  have hothers : ∀ u, u ≠ child → (s'.threads u).loops = false := by
    intro u hu
    rw [hthreads]
    by_cases hut : u = t
    · rw [hut, Function.update_self]
      rfl
    · rw [Function.update_of_ne hut, Function.update_of_ne hu]
      exact hnone u
  have honly : ∀ u, (s'.threads u).loops = true → u = child := by
    intro u hu
    by_contra hne
    rw [hothers u hne] at hu
    cases hu
  refine ⟨halone, fun u v hu hv => (honly u hu).trans (honly v hv).symm, ?_, fun u hu => ?_,
    fun u place callers hu hin => ?_⟩
  · rw [hrunning]
    exact ⟨fun _ => ⟨child, by rw [hchild]; rfl⟩, fun _ => rfl⟩
  · have hloops : (s'.threads u).loops = true := by rw [hu]; rfl
    rw [honly u hloops, hchild] at hu
    cases hu
  · have hloops : (s'.threads u).loops = true := by
      rw [hu]
      exact hin
    have huc := honly u hloops
    subst huc
    rw [hchild] at hu
    cases hu
    exact ⟨hname, rfl⟩

/-- A loop that starts is the first. -/
theorem OneLoop.start {created : Option Tid} (h : OneLoop threadId s) (halone : Alone s')
    (hinside : s.Inside t) (hthread : s.threads t = .alive place callers)
    (hplace : place.turns = false) (hstart : s.start threadId t created callers = some s') :
    OneLoop threadId s' := by
  unfold Process.start at hstart
  split at hstart
  · cases hstart
    exact h.giveBack halone hthread hplace rfl rfl rfl (.inr (h.no_end hinside))
  rename_i hrunning
  have hnone := h.none hinside (by simpa using hrunning)
  have hcallers : callers = [] := by
    have hloops := hnone t
    rw [hthread] at hloops
    simpa [Thread.loops, hplace] using hloops
  subst hcallers
  have hback : ∀ answer, (Thread.alive (Process.resume answer []).1
      (Process.resume answer []).2).loops = false := fun answer => rfl
  dsimp only at hstart
  split at hstart
  · cases hstart
    refine .of_none halone (fun u => ?_) rfl
    show ((Function.update s.threads t _) u).loops = false
    rw [Function.update_apply]
    split
    · exact hback _
    · exact hnone u
  · rename_i child
    split at hstart
    · rename_i hunborn
      cases hstart
      have hne : t ≠ child := by
        rintro rfl
        have hborn : s.threads t = .unborn := hunborn
        rw [hthread] at hborn
        cases hborn
      exact .of_child halone hne rfl (hnone ·) rfl rfl
    · cases hstart

/-- A thread waits for the end of the loop, or goes on past the wait. -/
theorem OneLoop.awaitExit {s₁ : Process} {call : Call} (h : OneLoop threadId s)
    (halone : Alone (s₁.awaitExit t call callers)) (hinside : s.Inside t)
    (hthread : s.threads t = .alive place callers) (hplace : place.turns = false)
    (hnot : (Thread.alive place callers).loops = false) (hthreads : s₁.threads = s.threads)
    (hrunning : s₁.this.mRunning = s.this.mRunning) (hname : s₁.this.mThread = s.this.mThread) :
    OneLoop threadId (s₁.awaitExit t call callers) := by
  have hstays : ∀ place' : Place, place'.turns = false → (Thread.alive place' callers).loops =
      (Thread.alive place callers).loops := by
    intro place' hplace'
    simp [Thread.loops, hplace, hplace']
  have hwaits : ∀ place' : Place, (Thread.alive place callers).loops = true →
      place'.waiting = false := by
    intro place' hloops
    rw [hnot] at hloops
    cases hloops
  unfold Process.awaitExit at halone ⊢
  split
  · rename_i hruns
    rw [if_pos hruns] at halone
    exact h.goTo halone hthread (hstays _ rfl) (hwaits _) hthreads hrunning hname
      (.inr (h.no_end hinside))
  · rename_i hruns
    rw [if_neg hruns] at halone
    exact h.goTo halone hthread (hstays _ rfl) (hwaits _) hthreads hrunning hname
      (.inr (h.no_end hinside))

/-- What a function does with the mutex. -/
theorem OneLoop.call {created : Option Tid} {call : Call} (h : OneLoop threadId s)
    (halone : Alone s') (hthread : s.threads t = .alive (.locked call) callers)
    (hcall : s.inside threadId t created callers call = some s') : OneLoop threadId s' := by
  have hinside : s.Inside t := by
    unfold Process.Inside
    rw [hthread]
    rfl
  -- the thread of the loop is the one that `mThread` names
  have hother : s.this.mThread ≠ threadId t →
      (Thread.alive (.locked call) callers).loops = false := by
    intro hne
    by_contra hloops
    exact hne (h.own t _ callers hthread ((Bool.not_eq_false _).mp hloops)).1
  cases call with
  | run name => exact h.start halone hinside hthread rfl hcall
  | requestExitAndWait | join =>
    simp only [Process.inside] at hcall
    split at hcall
    · cases hcall
      exact h.giveBack halone hthread rfl rfl rfl rfl (.inr (h.no_end hinside))
    · rename_i hne
      cases hcall
      exact h.awaitExit halone hinside hthread rfl (hother hne) rfl rfl rfl
  | requestExit | isRunning | getTid | exitPending =>
    cases hcall
    exact h.giveBack halone hthread rfl rfl rfl rfl (.inr (h.no_end hinside))

/-- After the only loop has ended, with the mutex. -/
theorem OneLoop.of_ended (h : OneLoop threadId s) (halone : Alone s') (hinside : s.Inside t)
    (hloops : (s.threads t).loops = true)
    (hthreads : s'.threads = Function.update (fun u => Process.wake (s.threads u)) t .ended)
    (hrunning : s'.this.mRunning = false) (hlock : s'.mLock = s.mLock) : OneLoop threadId s' := by
  have hself : s'.threads t = .ended := by rw [hthreads, Function.update_self]
  have hothers : ∀ u, u ≠ t → (s'.threads u).loops = false := by
    intro u hu
    rw [hthreads, Function.update_of_ne hu]
    have hwake : (Process.wake (s.threads u)).loops = (s.threads u).loops := by
      unfold Process.wake
      split
      · rename_i hthread
        rw [hthread]
        rfl
      · rfl
    rw [hwake]
    by_contra htrue
    exact hu (h.alone u t (by simpa using htrue) hloops)
  have honly : ∀ u, (s'.threads u).loops = true → u = t := by
    intro u hu
    by_contra hne
    rw [hothers u hne] at hu
    cases hu
  have hnone : ∀ u, (s'.threads u).inLoop = false := by
    intro u
    by_contra htrue
    have hin : (s'.threads u).inLoop = true := by simpa using htrue
    rw [honly u (Thread.loops_of_inLoop hin), hself] at hin
    cases hin
  refine ⟨halone, fun u v hu hv => (honly u hu).trans (honly v hv).symm, ?_, fun u hu => ?_,
    fun u place callers hu hin => ?_⟩
  · rw [hrunning]
    refine ⟨fun h => (by cases h), fun ⟨u, hu⟩ => ?_⟩
    rw [hnone u] at hu
    cases hu
  · have hut : u = t := honly u (by rw [hu]; rfl)
    rw [hlock, hut]
    exact h.inside t hinside
  · have hfalse := hnone u
    rw [hu, hin] at hfalse
    cases hfalse

/-- A turn of the loop ends, and with it the loop or not. -/
theorem OneLoop.judge {result : Bool} (h : OneLoop threadId s)
    (halone : Alone (s.judge t result callers))
    (hthread : s.threads t = .alive (.judges result) callers) :
    OneLoop threadId (s.judge t result callers) := by
  have hinside : s.Inside t := by
    unfold Process.Inside
    rw [hthread]
    rfl
  have hloops : (s.threads t).loops = true := by
    rw [hthread]
    rfl
  unfold Process.judge at halone ⊢
  split
  · rename_i hleaves
    rw [if_pos hleaves] at halone
    exact h.of_ended halone hinside hloops rfl rfl rfl
  · rename_i hleaves
    rw [if_neg hleaves] at halone
    exact h.goTo halone hthread rfl (fun _ => rfl) rfl rfl rfl (.inr (h.no_end hinside))

theorem OneLoop.lock (h : OneLoop threadId s) (halone : Alone s')
    (hthread : s.threads t = .alive place callers) (hlock : s.lock t place' callers = some s')
    (hloops : (Thread.alive place' callers).loops = (Thread.alive place callers).loops)
    (hwaits : (Thread.alive place callers).loops = true → place'.waiting = false) :
    OneLoop threadId s' := by
  unfold Process.lock at hlock
  split at hlock
  · rename_i hfree
    cases hlock
    exact h.moved halone hthread rfl hloops hwaits rfl rfl (.inr (h.no_end_of_free hfree))
  · cases hlock

theorem OneLoop.step {e : Event} (h : OneLoop threadId s)
    (hstep : step threadId e s = some s') : OneLoop threadId s' := by
  have halone : Alone s' := h.inside.step hstep
  unfold BinderThread.step at hstep
  split at hstep
  case h_2 => cases hstep
  rename_i place callers hthread
  -- the thread of the loop is never at a place where it waits
  have hwaits : place.waiting = true → (Thread.alive place callers).loops = false := by
    intro hwaiting
    by_contra hloops
    have hown := h.own e.thread place callers hthread
      ((Bool.not_eq_false _).mp hloops)
    rw [hown.2] at hwaiting
    cases hwaiting
  unfold Process.act at hstep
  split at hstep
  case h_1 | h_13 => cases hstep
  case h_2 =>
    cases hstep
    exact h.goTo halone hthread rfl (fun _ => rfl) rfl rfl rfl (.inl rfl)
  case h_3 => exact h.lock halone hthread hstep rfl fun _ => rfl
  case h_4 =>
    refine h.lock halone hthread hstep rfl fun hloops => ?_
    rw [hwaits rfl] at hloops
    cases hloops
  case h_5 => exact h.lock halone hthread hstep rfl fun _ => rfl
  case h_6 => exact h.call halone hthread hstep
  case h_7 =>
    cases hstep
    have hinside : s.Inside e.thread := by
      unfold Process.Inside
      rw [hthread]
      rfl
    exact h.awaitExit halone hinside hthread rfl (hwaits rfl) rfl rfl rfl
  case h_8 =>
    cases hstep
    exact h.judge halone hthread
  case h_9 =>
    cases hstep
    exact h.giveBack halone hthread rfl rfl rfl rfl (.inl rfl)
  case h_10 =>
    cases hstep
    refine h.goTo halone hthread rfl (fun hloops => ?_) rfl rfl rfl (.inl rfl)
    rw [hwaits rfl] at hloops
    cases hloops
  case h_11 =>
    split at hstep
    · split at hstep
      · cases hstep
        exact h.goTo halone hthread rfl (fun _ => rfl) rfl rfl rfl (.inl rfl)
      · cases hstep
        exact h.goTo halone hthread rfl (fun _ => rfl) rfl rfl rfl (.inl rfl)
    · cases hstep
  case h_12 =>
    split at hstep
    · cases hstep
      exact h.goTo halone hthread rfl (fun _ => rfl) rfl rfl rfl (.inl rfl)
    · cases hstep

theorem OneLoop.begin (there : Tid → Bool) : OneLoop threadId (Process.begin there) := by
  refine .of_none (fun t ht => absurd ht inside_begin) (fun t => ?_) rfl
  unfold Process.begin
  dsimp only
  split <;> rfl

/-! ## The law -/

/-- Whatever threads call whatever functions in whatever order, and whatever `pthread_create`,
`readyToRun` and `threadLoop` return: at most one thread is ever made for the loop, so that no `run`
starts a second one, not even after the first has ended; `mRunning` is set exactly as long as that
thread is in its loop; and the thread never waits for its own end, as what it calls out of the loop
finds its name in `mThread`. -/
theorem a_binder_thread_runs_one_loop (threadId : Tid → BitVec 32) (there : Tid → Bool)
    (events : List Event) (s : Process)
    (h : after (step threadId) events (Process.begin there) = some s) :
    (∀ t u, (s.threads t).loops = true → (s.threads u).loops = true → t = u) ∧
      (s.this.mRunning = true ↔ ∃ t, (s.threads t).inLoop = true) ∧
      ∀ t place callers, s.threads t = .alive place callers → callers ≠ [] →
        s.this.mThread = threadId t ∧ place.waiting = false := by
  have hone := after_inv (OneLoop threadId) (fun _ _ _ hstep h => h.step hstep) h (.begin there)
  refine ⟨hone.alone, hone.running, fun t place callers hthread hcallers => ?_⟩
  have hin : (Thread.alive place callers).inLoop = true := by simp [Thread.inLoop, hcallers]
  exact hone.own t place callers hthread hin

/-- A thread runs a BinderThread, whose loop calls `join` and comes back, and runs it again. -/
def joinsItself : List Event :=
  [⟨0, .call (.run (some "pool"))⟩, ⟨0, .lock⟩, ⟨0, .proceed (some 1)⟩, ⟨1, .readyToRun STATUS_OK⟩,
    ⟨1, .lock⟩, ⟨1, .proceed none⟩, ⟨1, .call .join⟩, ⟨1, .lock⟩, ⟨1, .proceed none⟩,
    ⟨0, .call (.run (some "pool"))⟩, ⟨0, .lock⟩, ⟨0, .proceed (some 2)⟩]

theorem a_loop_that_joins_itself_goes_on : ∃ s,
    after (step lowWord) joinsItself (Process.begin (· = 0)) = some s ∧
      s.this.mRunning = true ∧ ∃ t, (s.threads t).inLoop = true := by
  have hrun : (after (step lowWord) joinsItself (Process.begin (· = 0))).map
      (·.this.mRunning) = some true := by decide +kernel
  obtain ⟨s, hs, hrunning⟩ := Option.map_eq_some_iff.mp hrun
  exact ⟨s, hs, hrunning,
    (a_binder_thread_runs_one_loop lowWord (· = 0) joinsItself s hs).2.1.mp hrunning⟩

end system_binder.BinderThread
