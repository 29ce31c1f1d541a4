-- What the flush of a thread does to a process: the driver takes the commands, and then
-- every temporary reference is given back once.
import SystemBinder.ProxyRefs

open prog

namespace system_binder

namespace Process

/-- The references of `l` and the temporary ones. -/
def Totals.withTemps (l : Totals) (s : Process) : Totals where
  strong := fun a => l.strong a + s.mPostWriteStrongDerefs.count a
  weak := fun a => l.weak a + s.mPostWriteWeakDerefs.count a
  owned := l.owned

/-- The temporary references that wait for the driver. -/
def pending (s : Process) : List TempRef :=
  s.mPostWriteWeakDerefs.map .weak ++ s.mPostWriteStrongDerefs.map .strong

variable {l t t' : Totals} {s s' s'' : Process} {k : Knot} {a : Nat} {E : Fault → Prop}

/-- With no temporary reference. -/
theorem Totals.withTemps_nil (hweak : s.mPostWriteWeakDerefs = [])
    (hstrong : s.mPostWriteStrongDerefs = []) : l.withTemps s = l := by
  unfold Totals.withTemps
  rw [hweak, hstrong]
  rfl

/-- The temporary references given back. -/
theorem Totals.withTemps_given :
    ((l.withTemps s).giveWeak s.mPostWriteWeakDerefs).giveStrong s.mPostWriteStrongDerefs = l := by
  unfold Totals.withTemps Totals.giveWeak Totals.giveStrong
  simp

/-! ## The driver takes the commands -/

/-- The driver took `s.mOut`, and the temporary references of `s` went, which wrote `cmds`. -/
structure Talked (l : Totals) (s s' : Process) (cmds : List OutCommand) : Prop where
  has : Has l s'
  same : s'.fixed = s.fixed
  mOut : s'.mOut = cmds
  queued : s'.queued = s.queued ++ cmds
  weakDerefs : s'.mPostWriteWeakDerefs = []
  strongDerefs : s'.mPostWriteStrongDerefs = []
  sent : s'.sent = s.sent ++ [s.mOut]
  pushed : s'.pushed = s.pushed
  released : s'.released = s.released ++ s.pending
  releases : ∀ cmd ∈ cmds, ∃ handle, cmd = .BC_RELEASE handle
  books : Books s (l.withTemps s) l cmds

/-- The strong references are calm where no weak one is. -/
theorem Calm.giveWeak {items weak : List Nat} (h : Calm s t items) (hsame : s'.fixed = s.fixed) :
    Calm s' (t.giveWeak weak) items := by
  rcases h with h | h
  · left
    rw [busy_of_same hsame]
    exact h
  · right
    exact h

theorem talkWithDriver.spec {n : Nat} (h : Has (l.withTemps s) s)
    (hcalm : Calm s (l.withTemps s) s.mPostWriteStrongDerefs) :
    wp (talkWithDriver (knot (n + 1)))
      (fun _ s' => if s.mDriverFD < 0 ∨ s.mOut = [] then s' = s else ∃ cmds, Talked l s s' cmds)
      never s := by
  unfold talkWithDriver
  rw [wp_bind, wp_thisProcess]
  split
  · rw [wp_pure]
  · rw [wp_bind, wp_update]
    unfold processPostWriteDerefs
    rw [wp_bind, wp_thisProcess, wp_bind]
    have hsent : Has (l.withTemps s) { s with mOut := [], sent := s.sent ++ [s.mOut] } :=
      h.congr rfl
    refine wp_imp (releaseWeak_drained hsent List.drop_zero le_rfl fun b => ?_) fun _ s₁ hweak => ?_
    · exact Nat.le_add_left _ _
    rw [wp_bind, wp_update, wp_bind, wp_thisProcess, wp_bind]
    have hclear : Has ((l.withTemps s).giveWeak s.mPostWriteWeakDerefs)
        { s₁ with mPostWriteWeakDerefs := [] } := hweak.has.congr rfl
    have hitems : s₁.mPostWriteStrongDerefs.drop 0 = s.mPostWriteStrongDerefs :=
      hweak.strongDerefs
    refine wp_imp (releaseStrong_drained hclear hitems
      (le_of_eq (congrArg List.length hitems.symm)) (fun b => ?_)
      (hcalm.giveWeak hweak.same)) fun _ s₂ ⟨cmds, hstrong⟩ => ?_
    · exact Nat.le_add_left _ _
    rw [wp_update]
    rw [Totals.withTemps_given] at hstrong
    exact ⟨cmds,
      { has := hstrong.has.congr rfl
        same := hstrong.same.trans hweak.same
        mOut := by
          show s₂.mOut = cmds
          rw [hstrong.mOut]
          show s₁.mOut ++ cmds = cmds
          rw [hweak.mOut]
          rfl
        queued := by
          show s₂.queued = _
          rw [hstrong.queued]
          show s₁.queued ++ cmds = _
          rw [hweak.queued, List.append_nil]
        weakDerefs := hstrong.weakDerefs
        strongDerefs := rfl
        sent := hstrong.sent.trans hweak.sent
        pushed := hstrong.pushed.trans hweak.pushed
        released := by
          show s₂.released = _
          rw [hstrong.released]
          show s₁.released ++ _ = _
          rw [hweak.released, List.append_assoc]
          rfl
        releases := hstrong.releases
        books := (hweak.books.append hstrong.books (congrArg Fixed.handles hweak.same)).congr rfl }⟩

theorem Talked.pending_nil {cmds : List OutCommand} (h : Talked l s s' cmds) : s'.pending = [] := by
  unfold pending
  rw [h.weakDerefs, h.strongDerefs]
  rfl

/-! ## A flush -/

/-- The driver took commands any number of times. -/
def Talks (l : Totals) : Process → Process → Prop :=
  Relation.ReflTransGen fun s s' => ∃ cmds, Talked l s s' cmds

/-- A temporary reference waits only while there are commands. -/
def Settled (s : Process) : Prop := s.mOut = [] → s.pending = []

/-- A flush lost no temporary reference and gave none back twice. -/
structure Flushed (l : Totals) (s s' : Process) : Prop where
  has : Has (l.withTemps s') s'
  same : s'.fixed = s.fixed
  pushed : ∀ x, s'.pushed.count x = s.pushed.count x
  conserved : ∀ x, s'.released.count x + s'.pending.count x =
    s.released.count x + s.pending.count x
  settled : Settled s → Settled s'

theorem Flushed.refl (h : Has (l.withTemps s) s) : Flushed l s s where
  has := h
  same := rfl
  pushed := fun _ => rfl
  conserved := fun _ => rfl
  settled := id

theorem Talks.flushed (h : Has (l.withTemps s) s) (htalks : Talks l s s') : Flushed l s s' := by
  induction htalks with
  | refl => exact Flushed.refl h
  | tail _ htalked ih =>
    obtain ⟨cmds, htalked⟩ := htalked
    exact
      { has := by
          rw [Totals.withTemps_nil htalked.weakDerefs htalked.strongDerefs]
          exact htalked.has
        same := htalked.same.trans ih.same
        pushed := by
          intro x
          rw [htalked.pushed]
          exact ih.pushed x
        conserved := by
          intro x
          rw [← ih.conserved x, htalked.released, htalked.pending_nil, List.count_append,
            List.count_nil, Nat.add_zero]
        settled := fun _ _ => htalked.pending_nil }

/-- What waits no more does not come back. -/
theorem Talks.pending_nil (htalks : Talks l s s') (h : s.pending = []) : s'.pending = [] := by
  induction htalks with
  | refl => exact h
  | tail _ htalked ih =>
    obtain ⟨cmds, htalked⟩ := htalked
    exact htalked.pending_nil

/-- Nothing waits: no reference is the last one of its object. -/
theorem Calm.of_pending (h : s.pending = []) : Calm s t s.mPostWriteStrongDerefs := by
  right
  intro a ha
  have hmem : TempRef.strong a ∈ s.pending :=
    List.mem_append_right _ (List.mem_map_of_mem ha)
  rw [h] at hmem
  cases hmem

theorem talkWithDriver.spec_talks {n : Nat} (h : Has (l.withTemps s) s)
    (hcalm : Calm s (l.withTemps s) s.mPostWriteStrongDerefs) :
    wp (talkWithDriver (knot (n + 1))) (fun _ s' => Talks l s s') never s := by
  refine wp_imp (talkWithDriver.spec h hcalm) fun _ s' htalk => ?_
  split at htalk
  · rw [htalk]
    exact Relation.ReflTransGen.refl
  · exact Relation.ReflTransGen.single htalk

/-- Without a driver nothing happens. -/
theorem talkWithDriver.spec_closed {Q : Unit → Process → Prop} (hclosed : s.mDriverFD < 0) :
    wp (talkWithDriver k) Q E s ↔ Q () s := by
  unfold talkWithDriver
  rw [wp_bind, wp_thisProcess, if_pos (Or.inl hclosed), wp_pure]

theorem flushCommands.spec_closed {Q : Unit → Process → Prop} (hclosed : s.mDriverFD < 0) :
    wp (flushCommands k) Q E s ↔ Q () s := by
  unfold flushCommands
  rw [wp_bind, wp_thisProcess, if_pos hclosed, wp_pure]

theorem flushCommands.spec {n : Nat} (h : Has (l.withTemps s) s)
    (hcalm : Calm s (l.withTemps s) s.mPostWriteStrongDerefs) :
    wp (flushCommands (knot (n + 2)))
      (fun _ s' => Talks l s s' ∧ (0 ≤ s.mDriverFD → Settled s → s'.pending = [])) never s := by
  unfold flushCommands
  rw [wp_bind, wp_thisProcess]
  split
  · rename_i hclosed
    rw [wp_pure]
    exact ⟨Relation.ReflTransGen.refl, fun hopen => absurd hopen (by omega)⟩
  · rename_i hopen
    rw [wp_bind]
    refine wp_imp (talkWithDriver.spec h hcalm) fun _ s₁ htalk => ?_
    rw [wp_bind, wp_thisProcess]
    split at htalk
    · rename_i hnot
      have hempty := hnot.resolve_left hopen
      rw [htalk, if_pos hempty, wp_pure]
      exact ⟨Relation.ReflTransGen.refl, fun _ hsettled => hsettled hempty⟩
    · obtain ⟨cmds, htalked⟩ := htalk
      have hfirst : Talks l s s₁ := Relation.ReflTransGen.single ⟨cmds, htalked⟩
      split
      · rw [wp_pure]
        exact ⟨hfirst, fun _ _ => htalked.pending_nil⟩
      · refine wp_imp (talkWithDriver.spec_talks (Talks.flushed h hfirst).has
          (Calm.of_pending htalked.pending_nil)) fun _ s₂ htalks => ?_
        exact ⟨hfirst.trans htalks, fun _ _ => htalks.pending_nil htalked.pending_nil⟩

theorem flushIfNeeded.spec_idle {n : Nat} (h : Has (l.withTemps s) s) (hidle : s.busy = false) :
    wp (flushIfNeeded (knot (n + 2))) (fun flushed s' => flushed = true ∧ Flushed l s s') never s := by
  have hflag : s.mIsFlushing = false := by
    unfold busy at hidle
    cases hf : s.mIsFlushing with
    | false => rfl
    | true =>
      rw [hf, Bool.or_true] at hidle
      cases hidle
  unfold flushIfNeeded
  rw [wp_bind, wp_thisProcess, if_neg (by simp [hidle]), wp_bind, wp_update, wp_bind]
  have hset : Has (l.withTemps s) { s with mIsFlushing := true } := h.congr rfl
  have hcalm : Calm { s with mIsFlushing := true } (l.withTemps s) s.mPostWriteStrongDerefs := by
    left
    unfold busy
    exact Bool.or_true _
  refine wp_imp (flushCommands.spec hset hcalm) fun _ s₁ ⟨htalks, _⟩ => ?_
  have hflushed := Talks.flushed hset htalks
  rw [wp_bind, wp_update, wp_pure]
  refine ⟨rfl,
    { has := hflushed.has.congr rfl
      same := ?_
      pushed := hflushed.pushed
      conserved := hflushed.conserved
      settled := hflushed.settled }⟩
  have hcleared : fixed { s₁ with mIsFlushing := false } =
      { fixed { s with mIsFlushing := true } with mIsFlushing := false } := by
    rw [← hflushed.same]
    rfl
  rw [hcleared]
  unfold fixed
  rw [hflag]

end Process

end system_binder
