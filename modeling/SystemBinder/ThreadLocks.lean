-- Who has the mutex of a BinderThread: the one thread that is between its lock
-- and its unlock, until the loop ends.
import SystemBinder.BinderThread

open prog

namespace system_binder.BinderThread

variable {threadId : Tid → BitVec 32} {t u : Tid} {s s' : Process} {place : Place}
  {callers : List Caller}

/-! ## Between lock and unlock -/

/-- The places between the lock and the unlock. -/
def Place.holds : Place → Bool
  | .locked _ | .relocked _ | .judges _ => true
  | _ => false

/-- The function that the thread is in has locked the mutex and not yet unlocked it. -/
def Thread.holds : Thread → Bool
  | .alive place _ => place.holds
  | _ => false

namespace Process

/-- The thread is in a function that has the mutex. A thread that returned is not. -/
def Inside (s : Process) (t : Tid) : Prop := (s.threads t).holds = true

instance (s : Process) (t : Tid) : Decidable (s.Inside t) := inferInstanceAs (Decidable (_ = true))

theorem inside_goTo : (s.goTo t place callers).Inside u ↔
    if u = t then place.holds = true else s.Inside u := by
  unfold Inside goTo
  dsimp only
  rw [Function.update_apply]
  split <;> exact Iff.rfl

theorem holds_resume (answer : Answer) : (resume answer callers).1.holds = false := by
  unfold resume
  split
  · split <;> rfl
  · rfl

theorem inside_giveBack {answer : Answer} : (s.giveBack t answer callers).Inside u ↔
    u ≠ t ∧ s.Inside u := by
  have h : (s.giveBack t answer callers).Inside u ↔
      (s.goTo t (resume answer callers).1 (resume answer callers).2).Inside u := Iff.rfl
  rw [h, inside_goTo, holds_resume]
  simp

theorem holds_wake (thread : Thread) : (wake thread).holds = thread.holds := by
  unfold wake
  split <;> rfl

theorem inside_broadcast : s.broadcast.Inside u ↔ s.Inside u := by
  unfold Inside broadcast
  rw [holds_wake]

end Process

open Process

/-! ## What a step does with the mutex -/

/-- The step with which the loop of `BinderThread_threadLoop` ends. -/
def EndsLoop (e : Event) (s : Process) : Prop :=
  match s.threads e.thread, e.act with
  | .alive (.judges result) _, .proceed _ => s.LeavesLoop result
  | _, _ => False

instance (e : Event) (s : Process) : Decidable (EndsLoop e s) := by
  unfold EndsLoop
  split <;> infer_instance

/-- The thread does not come into a function with the mutex or out of one, and the others are
where they were. -/
structure Stays (t : Tid) (s s' : Process) : Prop where
  outside : ¬s.Inside t
  lock : s'.mLock = s.mLock
  others : ∀ u, s'.Inside u ↔ s.Inside u
  same : ∀ u, u ≠ t → s'.threads u = s.threads u

/-- The thread takes the mutex, which is free. -/
structure Takes (t : Tid) (s s' : Process) : Prop where
  free : s.mLock = none
  lock : s'.mLock = some t
  others : ∀ u, s'.Inside u ↔ u = t ∨ s.Inside u

/-- The thread leaves the function that has the mutex, and `lock` is who has the mutex then. -/
structure Leaves (t : Tid) (lock : Option Tid) (s s' : Process) : Prop where
  before : s.Inside t
  lock : s'.mLock = lock
  others : ∀ u, s'.Inside u ↔ u ≠ t ∧ s.Inside u

/-- The other fields of the BinderThread say nothing about its mutex. -/
theorem inside_congr {s₁ : Process} (h : s₁.threads = s.threads) : s₁.Inside u ↔ s.Inside u := by
  unfold Inside
  rw [h]

theorem Stays.goTo {s₁ : Process} (hthread : ¬s.Inside t) (hsame : s₁.threads = s.threads)
    (hlock : s₁.mLock = s.mLock) (hplace : place.holds = false) :
    Stays t s (s₁.goTo t place callers) := by
  refine ⟨hthread, hlock, fun u => ?_, fun u hu => ?_⟩
  · rw [inside_goTo, hplace]
    split
    · rename_i hu
      simpa [hu] using hthread
    · exact inside_congr hsame
  · rw [← hsame]
    exact Function.update_of_ne hu _ _

theorem Takes.lock_some (h : s.lock t place callers = some s') (hplace : place.holds = true) :
    Takes t s s' := by
  unfold Process.lock at h
  split at h
  · rename_i hfree
    cases h
    refine ⟨hfree, rfl, fun u => (inside_goTo (s := s)).trans ?_⟩
    rw [hplace]
    by_cases hu : u = t <;> simp [hu]
  · cases h

theorem Leaves.giveBack {s₁ : Process} {answer : Answer} (hthread : s.Inside t)
    (hsame : s₁.threads = s.threads) : Leaves t none s (s₁.unlock.giveBack t answer callers) := by
  refine ⟨hthread, rfl, fun u => inside_giveBack.trans ?_⟩
  exact and_congr_right fun _ => inside_congr hsame

theorem Leaves.goTo {s₁ : Process} (hthread : s.Inside t) (hsame : s₁.threads = s.threads)
    (hplace : place.holds = false) : Leaves t none s (s₁.unlock.goTo t place callers) := by
  refine ⟨hthread, rfl, fun u => ?_⟩
  rw [inside_goTo, hplace]
  by_cases hu : u = t
  · simp [hu]
  · have hunlocked : s₁.unlock.threads = s.threads := hsame
    simpa [hu] using inside_congr hunlocked

theorem Leaves.awaitExit {s₁ : Process} {call : Call} (hthread : s.Inside t)
    (hsame : s₁.threads = s.threads) : Leaves t none s (s₁.awaitExit t call callers) := by
  unfold Process.awaitExit
  split
  · exact .goTo hthread hsame rfl
  · exact .goTo hthread hsame rfl

theorem Leaves.start {created : Option Tid} (hthread : s.Inside t)
    (h : s.start threadId t created callers = some s') : Leaves t none s s' := by
  unfold Process.start at h
  split at h
  · cases h
    exact .giveBack hthread rfl
  dsimp only at h
  split at h
  · cases h
    exact .giveBack hthread rfl
  · rename_i child
    split at h
    · rename_i hunborn
      cases h
      refine ⟨hthread, rfl, fun u => inside_giveBack.trans (and_congr_right fun _ => ?_)⟩
      -- the new thread has not called anything
      refine (inside_goTo (s := s)).trans ?_
      split
      · rename_i hu
        have hnone : s.threads u = .unborn := hu ▸ hunborn
        simp [Inside, hnone, Place.holds, Thread.holds]
      · exact Iff.rfl
    · cases h

theorem Leaves.call {created : Option Tid} {call : Call} (hthread : s.Inside t)
    (h : s.inside threadId t created callers call = some s') : Leaves t none s s' := by
  cases call with
  | run name => exact .start hthread h
  | requestExitAndWait | join =>
    simp only [Process.inside] at h
    split at h
    · cases h
      exact .giveBack hthread rfl
    · cases h
      exact .awaitExit hthread rfl
  | requestExit | isRunning | getTid | exitPending =>
    cases h
    exact .giveBack hthread rfl

theorem Leaves.judge {result : Bool} (hthread : s.Inside t) :
    Leaves t (if s.LeavesLoop result then s.mLock else none) s (s.judge t result callers) := by
  unfold Process.judge
  split
  · refine ⟨hthread, rfl, fun u => ?_⟩
    unfold Inside
    dsimp only
    rw [Function.update_apply]
    by_cases hu : u = t
    · simp [hu, Thread.holds]
    · rw [if_neg hu]
      exact ⟨fun h => ⟨hu, inside_broadcast.mp h⟩, fun h => inside_broadcast.mpr h.2⟩
  · exact .goTo hthread rfl rfl

theorem endsLoop_iff {e : Event} (hthread : s.threads e.thread = .alive place callers) :
    EndsLoop e s ↔ ∃ result created, place = .judges result ∧ e.act = .proceed created ∧
      s.LeavesLoop result := by
  unfold EndsLoop
  rw [hthread]
  split
  · rename_i result _ created heq hact
    cases heq
    simp [hact]
  · rename_i hno
    simp only [false_iff, not_exists, not_and]
    rintro result created rfl hact
    exact absurd hact (hno result callers created rfl)

/-- What a step does with the mutex: only the end of the loop leaves it where it was. -/
theorem step_lock {e : Event} (h : step threadId e s = some s') :
    Stays e.thread s s' ∨ Takes e.thread s s' ∨
      Leaves e.thread (if EndsLoop e s then s.mLock else none) s s' := by
  unfold step at h
  split at h
  case h_2 => cases h
  rename_i place callers hthread
  have hends := endsLoop_iff hthread
  have hinside : s.Inside e.thread ↔ place.holds = true := by
    unfold Inside
    rw [hthread]
    exact Iff.rfl
  have houtside : place.holds = false → ¬s.Inside e.thread := by
    intro hplace
    rw [hinside, hplace]
    exact Bool.false_ne_true
  unfold Process.act at h
  split at h
  -- the steps without the mutex
  case h_2 | h_10 =>
    cases h
    exact .inl (.goTo (houtside rfl) rfl rfl rfl)
  case h_9 =>
    cases h
    refine .inl ⟨houtside rfl, rfl, fun u => inside_giveBack.trans ?_, fun u hu => ?_⟩
    · refine and_iff_right_of_imp fun hu htu => ?_
      exact houtside rfl (htu ▸ hu)
    · exact Function.update_of_ne hu _ _
  case h_11 =>
    split at h
    · split at h
      · cases h
        exact .inl (.goTo (houtside rfl) rfl rfl rfl)
      · cases h
        exact .inl (.goTo (houtside rfl) rfl rfl rfl)
    · cases h
  case h_12 =>
    split at h
    · cases h
      exact .inl (.goTo (houtside rfl) rfl rfl rfl)
    · cases h
  -- the steps that take it
  case h_3 | h_4 | h_5 => exact .inr (.inl (.lock_some h rfl))
  -- the steps that give it back
  case h_6 =>
    have hno : ¬EndsLoop e s := by simp [hends]
    rw [if_neg hno]
    exact .inr (.inr (.call (hinside.mpr rfl) h))
  case h_7 =>
    cases h
    have hno : ¬EndsLoop e s := by simp [hends]
    rw [if_neg hno]
    exact .inr (.inr (.awaitExit (hinside.mpr rfl) rfl))
  case h_8 =>
    rename_i result created hact
    cases h
    have hend : EndsLoop e s ↔ s.LeavesLoop result := by simp [hends, hact]
    rw [if_congr hend rfl rfl]
    exact .inr (.inr (.judge (hinside.mpr rfl)))
  case h_1 | h_13 => cases h

/-! ## The law -/

/-- Only the thread that has the mutex is in a function that took it. -/
def Alone (s : Process) : Prop := ∀ t, s.Inside t → s.mLock = some t

/-- Nobody but a thread in a function has the mutex: a thread that returned from every function
that it called has given it back. -/
def GivenBack (s : Process) : Prop := ∀ t, s.mLock = some t → s.Inside t

theorem Alone.step {e : Event} (h : step threadId e s = some s') (halone : Alone s) :
    Alone s' := by
  intro u hu
  obtain hstays | htakes | hleaves := step_lock h
  · rw [hstays.lock]
    exact halone u ((hstays.others u).mp hu)
  · obtain rfl | hu := (htakes.others u).mp hu
    · exact htakes.lock
    · have hlock := halone u hu
      rw [htakes.free] at hlock
      cases hlock
  · obtain ⟨hne, hu⟩ := (hleaves.others u).mp hu
    have hsame := (halone u hu).symm.trans (halone _ hleaves.before)
    exact absurd (Option.some.inj hsame) hne

theorem GivenBack.step {e : Event} (h : step threadId e s = some s') (hends : ¬EndsLoop e s)
    (hback : GivenBack s) : GivenBack s' := by
  intro u hu
  obtain hstays | htakes | hleaves := step_lock h
  · rw [hstays.lock] at hu
    exact (hstays.others u).mpr (hback u hu)
  · rw [htakes.lock] at hu
    cases hu
    exact (htakes.others _).mpr (.inl rfl)
  · rw [hleaves.lock, if_neg hends] at hu
    cases hu

theorem EndsLoop.before {e : Event} (h : EndsLoop e s) (threadId : Tid → BitVec 32) :
    s.Inside e.thread ∧ ∃ s', step threadId e s = some s' := by
  unfold EndsLoop at h
  split at h
  · rename_i hthread hact
    simp [Inside, Thread.holds, Place.holds, BinderThread.step, hthread, hact, Process.act]
  · cases h

/-- The end of the loop leaves the mutex with a thread that returned. -/
theorem not_givenBack_of_endsLoop {e : Event} (halone : Alone s) (hends : EndsLoop e s) :
    ∃ s', step threadId e s = some s' ∧ ¬GivenBack s' := by
  obtain ⟨hinside, s', hs⟩ := hends.before threadId
  have hlock := halone _ hinside
  refine ⟨s', hs, fun hback => ?_⟩
  obtain hstays | htakes | hleaves := step_lock hs
  · exact hstays.outside hinside
  · rw [htakes.free] at hlock
    cases hlock
  · have hkept := hleaves.lock
    rw [if_pos hends, hlock] at hkept
    exact ((hleaves.others _).mp (hback _ hkept)).1 rfl

theorem inside_begin {there : Tid → Bool} : ¬(Process.begin there).Inside t := by
  unfold Inside Process.begin
  dsimp only
  split <;> exact Bool.false_ne_true

/-- Whatever threads call whatever functions in whatever order, and whatever `readyToRun` and
`threadLoop` return: a thread that returned has given the mutex back in every state, exactly in
the runs in which no loop ends. -/
theorem the_mutex_comes_back_where_no_loop_ends (threadId : Tid → BitVec 32) (there : Tid → Bool)
    (events : List Event) :
    Throughout (step threadId) GivenBack events (Process.begin there) ↔
      Meets (step threadId) (fun e s => ¬EndsLoop e s) events (Process.begin there) := by
  refine throughout_iff_meets Alone (fun _ _ _ h => Alone.step h)
    (fun _ _ _ h _ hback hends => hback.step h hends)
    (fun _ _ halone _ hends => not_givenBack_of_endsLoop halone (not_not.mp hends)) ?_ ?_
  · exact fun _ h => absurd h inside_begin
  · exact fun _ h => by cases h

/-! ## After the loop -/

/-- A thread that ended with the mutex keeps it, and a thread that wants it waits. -/
structure Stuck (t u : Tid) (call : Call) (callers : List Caller) (s : Process) : Prop where
  alone : Alone s
  lock : s.mLock = some t
  ended : s.threads t = .ended
  waiting : s.threads u = .alive (.woken call) callers

theorem step_woken {e : Event} {call : Call}
    (hthread : s.threads e.thread = .alive (.woken call) callers) (hlock : s.mLock = some t) :
    step threadId e s = none := by
  obtain ⟨u, act⟩ := e
  unfold BinderThread.step
  rw [hthread]
  cases act with
  | lock => simp [Process.act, Process.lock, hlock]
  | _ => rfl

theorem Stuck.step {e : Event} {call : Call} (h : step threadId e s = some s')
    (hstuck : Stuck t u call callers s) : Stuck t u call callers s' := by
  obtain hstays | htakes | hleaves := step_lock h
  · have hended : t ≠ e.thread := by
      rintro rfl
      simp [BinderThread.step, hstuck.ended] at h
    have hwaiting : u ≠ e.thread := by
      rintro rfl
      rw [step_woken hstuck.waiting hstuck.lock] at h
      cases h
    refine ⟨hstuck.alone.step h, hstays.lock.trans hstuck.lock, ?_, ?_⟩
    · exact (hstays.same t hended).trans hstuck.ended
    · exact (hstays.same u hwaiting).trans hstuck.waiting
  · have hfree := htakes.free
    rw [hstuck.lock] at hfree
    cases hfree
  · have howner := hstuck.alone _ hleaves.before
    rw [hstuck.lock] at howner
    have hended : s.threads e.thread = .ended := Option.some.inj howner ▸ hstuck.ended
    have hinside := hleaves.before
    unfold Inside at hinside
    rw [hended] at hinside
    cases hinside

/-- One thread starts the loop and joins it. `threadLoop` returns false, and the loop ends. -/
def oneTurn : List Event :=
  [⟨0, .call (.run (some "pool"))⟩, ⟨0, .lock⟩, ⟨0, .proceed (some 1)⟩,
    ⟨0, .call .join⟩, ⟨0, .lock⟩, ⟨0, .proceed none⟩,
    ⟨1, .readyToRun STATUS_OK⟩, ⟨1, .lock⟩, ⟨1, .proceed none⟩,
    ⟨1, .threadLoop false⟩, ⟨1, .lock⟩, ⟨1, .proceed none⟩]

/-- The low half of a thread's identifier, as the functions compare it. -/
def lowWord (t : Tid) : BitVec 32 := BitVec.ofNat 32 t

/-- The loop returns with the mutex. The thread that waits for it is woken and never comes out
of its wait. -/
theorem a_woken_joiner_waits_for_ever :
    ∃ s, after (step lowWord) oneTurn (Process.begin (· = 0)) = some s ∧
      (1, .status 0) ∈ s.returned ∧ s.mLock = some 1 ∧ ¬GivenBack s ∧
      ∀ events s', after (step lowWord) events s = some s' →
        s'.threads 0 = .alive (.woken .join) [] := by
  have hrun : (after (step lowWord) oneTurn (Process.begin (· = 0))).isSome = true := by decide
  obtain ⟨s, hs⟩ := Option.isSome_iff_exists.mp hrun
  have hend : (after (step lowWord) oneTurn (Process.begin (· = 0))).map (fun s =>
      (s.mLock, s.threads 1, s.threads 0, s.returned)) =
      some (some 1, .ended, .alive (.woken .join) [], [(0, .status 0), (1, .flag false),
        (1, .status 0)]) := by decide
  rw [hs] at hend
  simp only [Option.map_some, Option.some.injEq, Prod.mk.injEq] at hend
  obtain ⟨hlock, hended, hwaiting, hreturned⟩ := hend
  have halone : Alone s :=
    after_inv Alone (fun _ _ _ h => Alone.step h) hs fun _ h => absurd h inside_begin
  refine ⟨s, hs, ?_, hlock, fun hback => ?_, fun events s' h => ?_⟩
  · rw [hreturned]
    simp
  · have hinside := hback 1 hlock
    unfold Inside at hinside
    rw [hended] at hinside
    cases hinside
  · exact (after_inv (Stuck 1 0 .join []) (fun _ _ _ h => Stuck.step h) h
      ⟨halone, hlock, hended, hwaiting⟩).waiting

end system_binder.BinderThread
