-- What the operations on references do to a process whose counts are known: the counts
-- change, at most one command is written, and a thread that must flush then flushes.
import SystemBinder.ProxyFlush

open prog

namespace system_binder

namespace Process

namespace Totals

/-- One strong reference more on `a`. -/
def addStrong (l : Totals) (a : Nat) : Totals := l.setStrong a (l.strong a + 1)

/-- One strong reference less on `a`. -/
def takeStrong (l : Totals) (a : Nat) : Totals := l.setStrong a (l.strong a - 1)

/-- One other weak reference more on `a`. -/
def addWeak (l : Totals) (a : Nat) : Totals := l.setWeak a (l.weak a + 1)

/-- One other weak reference less on `a`. -/
def takeWeak (l : Totals) (a : Nat) : Totals := l.setWeak a (l.weak a - 1)

theorem withTemps_setStrong (l : Totals) (s : Process) (a n : Nat) :
    (l.setStrong a n).withTemps s =
      (l.withTemps s).setStrong a (n + s.mPostWriteStrongDerefs.count a) := by
  unfold withTemps setStrong
  congr 1
  funext b
  by_cases hba : b = a
  · subst hba
    simp
  · simp [hba]

theorem withTemps_setWeak (l : Totals) (s : Process) (a n : Nat) :
    (l.setWeak a n).withTemps s =
      (l.withTemps s).setWeak a (n + s.mPostWriteWeakDerefs.count a) := by
  unfold withTemps setWeak
  congr 1
  funext b
  by_cases hba : b = a
  · subst hba
    simp
  · simp [hba]

/-- Only the temporary references matter. -/
theorem withTemps_congr (l : Totals) {s s' : Process}
    (hweak : s'.mPostWriteWeakDerefs = s.mPostWriteWeakDerefs)
    (hstrong : s'.mPostWriteStrongDerefs = s.mPostWriteStrongDerefs) :
    l.withTemps s' = l.withTemps s := by
  unfold withTemps
  rw [hweak, hstrong]

end Totals

variable {l l' t t' : Totals} {s s' s₁ : Process} {k : Knot} {a : Nat} {E : Fault → Prop}

/-- From `s` to `s'` temporary references were kept and commands written. -/
structure Moved (t t' : Totals) (s s' : Process) (weaks strongs : List Nat)
    (cmds : List OutCommand) : Prop where
  has : Has t' s'
  same : s'.fixed = s.fixed
  mOut : s'.mOut = s.mOut ++ cmds
  queued : s'.queued = s.queued ++ cmds
  weakDerefs : s'.mPostWriteWeakDerefs = s.mPostWriteWeakDerefs ++ weaks
  strongDerefs : s'.mPostWriteStrongDerefs = s.mPostWriteStrongDerefs ++ strongs
  sent : s'.sent = s.sent
  pushed : ∀ x, s'.pushed.count x =
    s.pushed.count x + (weaks.map TempRef.weak ++ strongs.map TempRef.strong).count x
  released : s'.released = s.released
  books : Books s t t' cmds

/-- Nothing is kept without a command, at most one is written, only proxies are kept, and one
is whose first strong reference the command announces. -/
def Told (s : Process) (weaks strongs : List Nat) (cmds : List OutCommand) : Prop :=
  (cmds = [] ∧ weaks = [] ∧ strongs = []) ∨
    ∃ cmd, cmds = [cmd] ∧ (∀ a ∈ weaks ++ strongs, (s.objects a).binder_handle ≠ none) ∧
      ∀ handle, cmd = .BC_ACQUIRE handle → ∃ a ∈ strongs, (s.objects a).binder_handle = some handle

/-- What an operation does: it moves, and a thread that must flush has flushed. -/
def Effect (l l' : Totals) (s s' : Process) : Prop :=
  if s.busy = true then
    ∃ weaks strongs cmds, Moved (l.withTemps s) (l'.withTemps s') s s' weaks strongs cmds ∧
      Told s weaks strongs cmds
  else Flushed l' s s'

theorem Moved.trans {t'' : Totals} {s'' : Process} {weaks weaks' strongs strongs' : List Nat}
    {cmds cmds' : List OutCommand} (h : Moved t t' s s' weaks strongs cmds)
    (h' : Moved t' t'' s' s'' weaks' strongs' cmds') :
    Moved t t'' s s'' (weaks ++ weaks') (strongs ++ strongs') (cmds ++ cmds') where
  has := h'.has
  same := h'.same.trans h.same
  mOut := by rw [h'.mOut, h.mOut, List.append_assoc]
  queued := by rw [h'.queued, h.queued, List.append_assoc]
  weakDerefs := by rw [h'.weakDerefs, h.weakDerefs, List.append_assoc]
  strongDerefs := by rw [h'.strongDerefs, h.strongDerefs, List.append_assoc]
  sent := h'.sent.trans h.sent
  pushed := by
    intro x
    have hx := h.pushed x
    have hx' := h'.pushed x
    simp only [List.map_append, List.count_append] at hx hx' ⊢
    omega
  released := h'.released.trans h.released
  books := h.books.append h'.books (congrArg Fixed.handles h.same)

/-- Other counts alone. -/
theorem Moved.counted {c : Option Nat} {w : Nat}
    (hhas : Has t' (putRefs a (counts (s.objects a).refs.mFlags c w) s))
    (hgrows : ∀ b, t.owned b = true → t'.owned b = true)
    (hbooks : ∀ b, (s.objects b).binder_handle ≠ none → (0 < t.strong b ↔ 0 < t'.strong b)) :
    Moved t t' s (putRefs a (counts (s.objects a).refs.mFlags c w) s) [] [] [] where
  has := hhas
  same := fixed_putRefs
  mOut := (List.append_nil _).symm
  queued := (List.append_nil _).symm
  weakDerefs := (List.append_nil _).symm
  strongDerefs := (List.append_nil _).symm
  sent := rfl
  pushed := fun _ => rfl
  released := rfl
  books := Books.nil hgrows hbooks

/-- Other counts and a command. -/
theorem Moved.wrote {c : Option Nat} {w : Nat} {cmd : OutCommand}
    (hhas : Has t' (putRefs a (counts (s.objects a).refs.mFlags c w) s))
    (hbooks : Books s t t' [cmd]) :
    Moved t t' s (wrote cmd (putRefs a (counts (s.objects a).refs.mFlags c w) s)) [] [] [cmd] where
  has := hhas.congr rfl
  same := (fixed_wrote cmd).trans fixed_putRefs
  mOut := rfl
  queued := rfl
  weakDerefs := (List.append_nil _).symm
  strongDerefs := (List.append_nil _).symm
  sent := rfl
  pushed := fun _ => rfl
  released := rfl
  books := hbooks

/-- A move that keeps nothing loses nothing. -/
theorem Moved.flushed {cmds : List OutCommand}
    (h : Moved t (l.withTemps s') s s' [] [] cmds) : Flushed l s s' := by
  have hpending : s'.pending = s.pending := by
    unfold pending
    rw [h.weakDerefs, h.strongDerefs, List.append_nil, List.append_nil]
  exact
    { has := h.has
      same := h.same
      pushed := h.pushed
      conserved := by
        intro x
        rw [h.released, hpending]
      settled := by
        intro hsettled hout
        rw [h.mOut] at hout
        rw [hpending]
        exact hsettled (List.append_eq_nil_iff.mp hout).1 }

theorem Flushed.trans {l₁ l₂ : Totals} (h : Flushed l₁ s s₁) (h' : Flushed l₂ s₁ s') :
    Flushed l₂ s s' where
  has := h'.has
  same := h'.same.trans h.same
  pushed := fun x => (h'.pushed x).trans (h.pushed x)
  conserved := fun x => (h'.conserved x).trans (h.conserved x)
  settled := fun hsettled => h'.settled (h.settled hsettled)

/-- An operation that moves without keeping anything. -/
theorem Effect.of_moved {cmds : List OutCommand}
    (h : Moved (l.withTemps s) (l'.withTemps s') s s' [] [] cmds) (htold : Told s [] [] cmds) :
    Effect l l' s s' := by
  unfold Effect
  split
  · exact ⟨[], [], cmds, h, htold⟩
  · exact h.flushed

theorem Told.nil : Told s [] [] [] := Or.inl ⟨rfl, rfl, rfl⟩

/-! ## The first strong reference -/

/-- The books after the first strong reference of a proxy. -/
theorem Books.acquire {handle : BitVec 32}
    (hhandle : (s.objects a).binder_handle = some handle) (hzero : t.strong a = 0)
    (hgrows : ∀ b, t.owned b = true → t'.owned b = true) (howned : t'.owned a = true)
    (hpos : 0 < t'.strong a) (hother : ∀ b, b ≠ a → t'.strong b = t.strong b) :
    Books s t t' [.BC_ACQUIRE handle] := by
  refine ⟨hgrows, fun handle' hsilent => ⟨?_, by simp⟩, fun b handle' halone => ?_⟩
  · rw [List.mem_singleton, OutCommand.BC_ACQUIRE.injEq]
    rintro rfl
    rw [hsilent a hhandle] at howned
    cases howned
  by_cases hba : b = a
  · subst hba
    have hsame : handle' = handle := Option.some.inj (halone.1.symm.trans hhandle)
    simp [track, turn, hsame, hpos, hzero]
  · have hne : handle ≠ handle' := by
      intro heq
      have hnot := halone.2 a (Ne.symm hba) (by rw [hhandle, heq])
      rw [howned] at hnot
      cases hnot
    simp [track, turn, hne, hother b hba]

/-- The counts after a first strong reference for `l`. -/
theorem Has.putFirst (h : Has (l.withTemps s) s) (hzero : (l.withTemps s).strong a = 0)
    (hroom : (l.withTemps s).weak a + 1 < 2 ^ 20) :
    Has ((l.addStrong a).withTemps s)
      (putRefs a (counts (s.objects a).refs.mFlags (some 1) (1 + (l.withTemps s).weak a)) s) := by
  have hnone : l.strong a = 0 ∧ s.mPostWriteStrongDerefs.count a = 0 := by
    simp only [Totals.withTemps] at hzero
    omega
  have hput := h.putStrong (a := a) (n := 1) rfl (by omega)
  rw [Totals.addStrong, Totals.withTemps_setStrong, hnone.1, hnone.2]
  exact hput

/-- The process that keeps a strong reference on `a`. -/
def keptStrong (a : Nat) (s : Process) : Process := { s with
  mPostWriteStrongDerefs := s.mPostWriteStrongDerefs ++ [a], pushed := s.pushed ++ [.strong a] }

@[simp] theorem fixed_keptStrong : (keptStrong a s).fixed = s.fixed := rfl

theorem Totals.withTemps_keptStrong (l : Totals) (a : Nat) (s : Process) (h : l.owned a = true) :
    l.withTemps (keptStrong a s) =
      (l.withTemps s).setStrong a ((l.withTemps s).strong a + 1) := by
  unfold withTemps setStrong keptStrong
  congr 1
  · funext b
    by_cases hba : b = a
    · subst hba
      simp [Nat.add_assoc]
    · simp [hba, Ne.symm hba]
  · funext b
    by_cases hba : b = a
    · subst hba
      simp [h]
    · simp [hba]

/-- A temporary reference on an object that has a strong one. -/
theorem keepStrong.moved (h : Has (l.withTemps s) s) (hpos : 0 < (l.withTemps s).strong a)
    (hroom : (l.withTemps s).strong a + 1 + (l.withTemps s).weak a < 2 ^ 20) :
    wp (keepStrong k a) (fun _ s' => Moved (l.withTemps s) (l.withTemps s') s s' [] [a] [])
      never s := by
  unfold keepStrong
  rw [wp_bind, incStrong.spec_owned h hpos, wp_update]
  have htemps := Totals.withTemps_keptStrong l a s (h.owned hpos)
  have hhas := h.putStrong (a := a) rfl hroom
  rw [← htemps] at hhas
  exact
    { has := hhas.congr rfl
      same := fixed_keptStrong.trans fixed_putRefs
      mOut := (List.append_nil _).symm
      queued := (List.append_nil _).symm
      weakDerefs := (List.append_nil _).symm
      strongDerefs := rfl
      sent := rfl
      pushed := fun _ => List.count_append
      released := rfl
      books := by
        refine Books.nil (fun _ hc => hc) fun b _ => ?_
        show _ ↔ 0 < (l.withTemps (keptStrong a s)).strong b
        rw [htemps]
        by_cases hba : b = a
        · subst hba
          rw [Totals.strong_setStrong]
          omega
        · rw [Totals.strong_setStrong_ne _ _ hba] }

/-- A new strong reference where there is none tells the object. -/
theorem onFirstRef.effect {n : Nat} (h : Has (l.withTemps s) s)
    (hzero : (l.withTemps s).strong a = 0) (hroom : (l.withTemps s).weak a + 2 < 2 ^ 20) :
    wp (onFirstRef (knot (n + 2)) a) (fun _ s' => Effect l (l.addStrong a) s s') never
      (putRefs a (counts (s.objects a).refs.mFlags (some 1) (1 + (l.withTemps s).weak a)) s) := by
  have hfirst := h.putFirst hzero (by omega)
  have hone : ((l.addStrong a).withTemps s).strong a = 1 := by
    simp only [Totals.withTemps] at hzero
    rw [Totals.addStrong, Totals.withTemps_setStrong, Totals.strong_setStrong]
    omega
  have hother : ∀ b, b ≠ a →
      ((l.addStrong a).withTemps s).strong b = (l.withTemps s).strong b := by
    intro b hba
    rw [Totals.addStrong, Totals.withTemps_setStrong, Totals.strong_setStrong_ne _ _ hba]
  have hgrows : ∀ b, (l.withTemps s).owned b = true →
      ((l.addStrong a).withTemps s).owned b = true :=
    fun b hb => Totals.grows_setStrong l a (l.strong a + 1) b hb
  unfold onFirstRef
  rw [wp_bind, wp_thisProcess, handle_putRefs]
  cases hhandle : (s.objects a).binder_handle with
  | none =>
    refine Effect.of_moved (Moved.counted hfirst hgrows fun b hb => ?_) Told.nil
    have hba : b ≠ a := fun heq => hb (by rw [heq, hhandle])
    exact iff_of_eq (congrArg (0 < ·) (hother b hba).symm)
  | some handle =>
    show wp (incStrongHandle (knot (n + 2)) handle a) _ _ _
    unfold incStrongHandle
    rw [wp_bind, wp_write, wp_bind]
    have hwrote := Moved.wrote hfirst (Books.acquire hhandle hzero hgrows (by simp [Totals.addStrong,
      Totals.withTemps_setStrong]) (by omega) hother)
    by_cases hbusy : s.busy = true
    · rw [flushIfNeeded.spec_busy (by simpa using hbusy), if_neg (by decide)]
      have hone' : ((l.addStrong a).withTemps (wrote (.BC_ACQUIRE handle) (putRefs a
          (counts (s.objects a).refs.mFlags (some 1) (1 + (l.withTemps s).weak a)) s))).strong a =
            1 := hone
      refine wp_imp (keepStrong.moved (l := l.addStrong a) hwrote.has (by omega) ?_)
        fun _ s' hkept => ?_
      · rw [hone']
        show 1 + 1 + (l.withTemps s).weak a < 2 ^ 20
        omega
      unfold Effect
      rw [if_pos hbusy]
      refine ⟨[], [a], [.BC_ACQUIRE handle], hwrote.trans hkept, Or.inr ⟨_, rfl, ?_, ?_⟩⟩
      · intro b hb
        rw [List.mem_singleton.mp hb, hhandle]
        simp
      · intro handle' hsame
        rw [OutCommand.BC_ACQUIRE.injEq] at hsame
        exact ⟨a, List.mem_singleton_self a, by rw [← hsame, hhandle]⟩
    · rw [Bool.not_eq_true] at hbusy
      refine wp_imp (flushIfNeeded.spec_idle (l := l.addStrong a) hwrote.has
        (by simpa using hbusy)) fun flushed s' hflush => ?_
      obtain ⟨rfl, hflushed⟩ := hflush
      rw [if_pos rfl, wp_pure]
      unfold Effect
      rw [if_neg (by simp [hbusy])]
      exact hwrote.flushed.trans hflushed

/-! ## The operations -/

/-- A strong reference more, on an object that has one. -/
theorem Moved.addStrong (h : Has (l.withTemps s) s) (hpos : 0 < (l.withTemps s).strong a)
    (hroom : (l.withTemps s).strong a + 1 + (l.withTemps s).weak a < 2 ^ 20) :
    Moved (l.withTemps s) ((l.addStrong a).withTemps s) s (putRefs a
      (counts (s.objects a).refs.mFlags (some ((l.withTemps s).strong a + 1))
        ((l.withTemps s).strong a + 1 + (l.withTemps s).weak a)) s) [] [] [] := by
  have hsum : (l.addStrong a).withTemps s =
      (l.withTemps s).setStrong a ((l.withTemps s).strong a + 1) := by
    rw [Totals.addStrong, Totals.withTemps_setStrong]
    congr 1
    simp only [Totals.withTemps]
    omega
  rw [hsum]
  refine Moved.counted (h.putStrong rfl hroom)
    (fun b hb => Totals.grows_setStrong _ a _ b hb) fun b _ => ?_
  by_cases hba : b = a
  · subst hba
    rw [Totals.strong_setStrong]
    omega
  · rw [Totals.strong_setStrong_ne _ _ hba]

theorem incStrong.effect {n : Nat} (h : Has (l.withTemps s) s)
    (hown : l.owned a = false ∨ 0 < (l.withTemps s).strong a)
    (hroom : (l.withTemps s).strong a + (l.withTemps s).weak a + 2 < 2 ^ 20) :
    wp (refBase (knot (n + 3)) a).incStrong (fun _ s' => Effect l (l.addStrong a) s s') never s := by
  rcases Nat.eq_zero_or_pos ((l.withTemps s).strong a) with hzero | hpos
  · rw [incStrong.spec_first h (hown.resolve_right (by omega))]
    exact onFirstRef.effect h hzero (by omega)
  · rw [incStrong.spec_owned h hpos]
    exact Effect.of_moved (Moved.addStrong h hpos (by omega)) Told.nil

theorem forceIncStrong.effect {n : Nat} (h : Has (l.withTemps s) s)
    (hroom : (l.withTemps s).strong a + (l.withTemps s).weak a + 2 < 2 ^ 20) :
    wp (refBase (knot (n + 3)) a).forceIncStrong (fun _ s' => Effect l (l.addStrong a) s s')
      never s := by
  rcases Nat.eq_zero_or_pos ((l.withTemps s).strong a) with hzero | hpos
  · rw [forceIncStrong.spec_first h hzero]
    exact onFirstRef.effect h hzero (by omega)
  · rw [forceIncStrong.spec_owned h hpos]
    exact Effect.of_moved (Moved.addStrong h hpos (by omega)) Told.nil

/-- A weak reference more. -/
theorem Moved.addWeak (h : Has (l.withTemps s) s)
    (hroom : (l.withTemps s).strong a + ((l.withTemps s).weak a + 1) < 2 ^ 20) :
    Moved (l.withTemps s) ((l.addWeak a).withTemps s) s (putRefs a
      (counts (s.objects a).refs.mFlags ((l.withTemps s).count a)
        ((l.withTemps s).strong a + ((l.withTemps s).weak a + 1))) s) [] [] [] := by
  have hsum : (l.addWeak a).withTemps s =
      (l.withTemps s).setWeak a ((l.withTemps s).weak a + 1) := by
    rw [Totals.addWeak, Totals.withTemps_setWeak]
    congr 1
    simp only [Totals.withTemps]
    omega
  rw [hsum]
  exact Moved.counted (h.putWeak rfl hroom) (fun _ hb => hb) fun b _ => Iff.rfl

theorem incWeak.effect (h : Has (l.withTemps s) s)
    (hroom : (l.withTemps s).strong a + (l.withTemps s).weak a + 2 < 2 ^ 20) :
    wp (refBase k a).incWeak (fun _ s' => Effect l (l.addWeak a) s s') never s := by
  rw [incWeak.spec h]
  exact Effect.of_moved (Moved.addWeak h (by omega)) Told.nil

/-- Weak references that went, with no command. -/
theorem Drained.moved {cmds : List OutCommand} (h : Drained t t' s s' [] cmds) :
    Moved t t' s s' [] [] cmds where
  has := h.has
  same := h.same
  mOut := h.mOut
  queued := h.queued
  weakDerefs := by rw [h.weakDerefs, List.append_nil]
  strongDerefs := by rw [h.strongDerefs, List.append_nil]
  sent := h.sent
  pushed := by
    intro x
    rw [h.pushed]
    rfl
  released := by rw [h.released, List.append_nil]
  books := h.books

theorem Totals.takeWeak_given (hpos : 0 < l.weak a) :
    (l.withTemps s).giveWeak [a] = (l.takeWeak a).withTemps s := by
  rw [Totals.giveWeak_one, Totals.takeWeak, Totals.withTemps_setWeak]
  congr 1
  simp only [Totals.withTemps]
  omega

theorem decWeak.effect (h : Has (l.withTemps s) s) (hpos : 0 < l.weak a) :
    wp (refBase k a).decWeak (fun _ s' => Effect l (l.takeWeak a) s s') never s := by
  refine wp_imp (decWeak_drained h (Nat.add_pos_left hpos _)) fun _ s' hgone => ?_
  rw [Totals.takeWeak_given hpos] at hgone
  have hmoved := hgone.moved
  rw [← Totals.withTemps_congr (l.takeWeak a) hgone.weakDerefs hgone.strongDerefs] at hmoved
  exact Effect.of_moved hmoved Told.nil

theorem Totals.takeStrong_given (hpos : 0 < l.strong a) (howned : l.owned a = true) :
    (l.withTemps s).giveStrong [a] = (l.takeStrong a).withTemps s := by
  rw [Totals.giveStrong_one (t := l.withTemps s) howned, Totals.takeStrong,
    Totals.withTemps_setStrong]
  congr 1
  simp only [Totals.withTemps]
  omega

/-- What a thread that need not flush, or an object with other references, makes of a strong
reference less. -/
theorem Effect.of_drained {cmds : List OutCommand} (hpos : 0 < l.strong a)
    (howned : l.owned a = true) (hlength : cmds.length ≤ 1)
    (h : Drained (l.withTemps s) ((l.withTemps s).giveStrong [a]) s s' [] cmds) :
    Effect l (l.takeStrong a) s s' := by
  rw [Totals.takeStrong_given hpos howned] at h
  have hmoved := h.moved
  rw [← Totals.withTemps_congr (l.takeStrong a) h.weakDerefs h.strongDerefs] at hmoved
  refine Effect.of_moved hmoved ?_
  rcases cmds with _ | ⟨cmd, _ | ⟨cmd', cmds⟩⟩
  · exact Told.nil
  · right
    refine ⟨cmd, rfl, by simp, fun handle hacquire => ?_⟩
    obtain ⟨handle', hrelease⟩ := h.releases cmd (List.mem_singleton_self cmd)
    rw [hacquire] at hrelease
    cases hrelease
  · simp only [List.length_cons] at hlength
    omega

/-- A thread that must flush tells the driver of a last strong reference at once. -/
theorem decStrong_last_flushed {n : Nat} (h : Has (l.withTemps s) s) (hpos : 0 < l.strong a)
    (hone : (l.withTemps s).strong a = 1) (hidle : s.busy = false) :
    wp (refBase (knot (n + 3)) a).decStrong (fun _ s' => Flushed (l.takeStrong a) s s') never s := by
  have hmid := h.putLast hone
  have hnone : l.strong a = 1 ∧ s.mPostWriteStrongDerefs.count a = 0 := by
    simp only [Totals.withTemps] at hone
    omega
  have hledger : ((l.takeStrong a).addWeak a).withTemps s =
      ((l.withTemps s).setStrong a 0).setWeak a ((l.withTemps s).weak a + 1) := by
    rw [Totals.addWeak, Totals.withTemps_setWeak, Totals.takeStrong, Totals.withTemps_setStrong,
      hnone.1, hnone.2]
    congr 1
    simp only [Totals.withTemps, Totals.weak_setStrong]
    omega
  have hback : ((l.takeStrong a).addWeak a).takeWeak a = l.takeStrong a := by
    rw [Totals.takeWeak, Totals.addWeak, Totals.weak_setWeak, Nat.add_sub_cancel,
      Totals.setWeak_setWeak, Totals.setWeak_self]
  have hidle' : ∀ {s₂ : Process}, s₂.fixed = s.fixed → ¬s₂.busy = true := by
    intro s₂ hsame
    rw [busy_of_same hsame, hidle]
    decide
  have hgrows : ∀ b, (l.withTemps s).owned b = true →
      (((l.takeStrong a).addWeak a).withTemps s).owned b = true :=
    fun b hb => Totals.grows_setStrong l a (l.strong a - 1) b hb
  rw [← hledger] at hmid
  -- the weak reference goes after the flush, as it does without one
  have hweak : ∀ s₂ : Process, Flushed ((l.takeStrong a).addWeak a) s s₂ →
      wp (refBase (knot (n + 3)) a).decWeak (fun _ s' => Flushed (l.takeStrong a) s s') never s₂ := by
    intro s₂ hflushed
    refine wp_imp (decWeak.effect hflushed.has (by simp [Totals.addWeak])) fun _ s' hgone => ?_
    unfold Effect at hgone
    rw [if_neg (hidle' hflushed.same), hback] at hgone
    exact hflushed.trans hgone
  rw [decStrong.spec_last h hone]
  show wp (onLastStrongRef (knot (n + 2)) a) _ _ _
  unfold onLastStrongRef
  rw [wp_bind, wp_thisProcess, handle_putRefs]
  cases hhandle : (s.objects a).binder_handle with
  | none =>
    apply hweak
    refine (Moved.counted (t := l.withTemps s) hmid hgrows fun b hb => ?_).flushed
    have hba : b ≠ a := fun heq => hb (by rw [heq, hhandle])
    rw [hledger, Totals.strong_setWeak, Totals.strong_setStrong_ne _ _ hba]
  | some handle =>
    show wp (decStrongHandle (knot (n + 2)) handle) _ _ _
    unfold decStrongHandle
    rw [wp_bind, wp_write, wp_bind]
    have hbooks : Books s (l.withTemps s) (((l.takeStrong a).addWeak a).withTemps s)
        [.BC_RELEASE handle] := by
      refine Books.release hhandle (by omega) hgrows ?_ ?_ fun b hba => ?_
      · rw [hledger]
        simp
      · rw [hledger]
        simp
      rw [hledger]
      rw [Totals.strong_setWeak, Totals.strong_setStrong_ne _ _ hba]
    have hwrote := Moved.wrote hmid hbooks
    refine wp_imp (flushIfNeeded.spec_idle (l := (l.takeStrong a).addWeak a) hwrote.has
      (by simpa using hidle)) fun flushed s₂ hflush => ?_
    exact hweak s₂ (hwrote.flushed.trans hflush.2)

theorem decStrong.effect {n : Nat} (h : Has (l.withTemps s) s) (hpos : 0 < l.strong a) :
    wp (refBase (knot (n + 3)) a).decStrong (fun _ s' => Effect l (l.takeStrong a) s s')
      never s := by
  have hcount : l.strong a ≤ (l.withTemps s).strong a := Nat.le_add_right _ _
  have howned : l.owned a = true := h.owned (t := l.withTemps s) (by omega)
  by_cases hone : (l.withTemps s).strong a = 1
  · by_cases hbusy : s.busy = true
    · refine wp_imp (decStrong_last_drained h hone hbusy) fun _ s' ⟨cmds, hlength, hgone⟩ => ?_
      exact Effect.of_drained hpos howned hlength hgone
    · refine wp_imp (decStrong_last_flushed h hpos hone (by simpa using hbusy)) fun _ s' hgone => ?_
      unfold Effect
      rw [if_neg hbusy]
      exact hgone
  · refine wp_imp (decStrong_drained h (by omega)) fun _ s' hgone => ?_
    exact Effect.of_drained hpos howned (show ([] : List OutCommand).length ≤ 1 by simp) hgone

/-- A proxy without a strong reference is not promoted. -/
theorem attemptIncStrong.effect {n : Nat} (h : Has (l.withTemps s) s)
    (hmode : strongMode (s.objects a).refs.mFlags = false)
    (hroom : (l.withTemps s).strong a + (l.withTemps s).weak a + 2 < 2 ^ 20) :
    wp (refBase (knot (n + 3)) a).attemptIncStrong (fun ok s' =>
      Effect l (if ok = true then l.addStrong a else l) s s' ∧
        (ok = true ↔ 0 < (l.withTemps s).strong a)) never s := by
  have hrefs := h.refs a
  rcases Nat.eq_zero_or_pos ((l.withTemps s).strong a) with hzero | hpos
  · have hnone : strongRefs ((l.withTemps s).count a) = 0 := by
      unfold Totals.count
      split
      · exact hzero
      · rfl
    rw [hzero, Nat.zero_add] at hrefs
    refine RefBase.attemptIncStrong.spec_asked hrefs hnone hmode (by omega) ?_
    rw [show (refBase (knot (n + 3)) a).onIncStrongAttempted = pure false from rfl, wp_pure]
    refine ⟨(refBase (knot (n + 3)) a).refs_put _ _, fun hok => absurd hok (by decide), ?_⟩
    intro _
    -- the weak reference of the attempt goes again
    have hback : (refBase (knot (n + 3)) a).putRefs (counts (s.objects a).refs.mFlags
        ((l.withTemps s).count a) ((l.withTemps s).weak a)) s = s := by
      rw [← hrefs]
      exact (refBase (knot (n + 3)) a).put_refs s
    have heffect : Effect l l s s := Effect.of_moved (Drained.refl h).moved Told.nil
    rw [RefBase.decWeak.spec ((refBase (knot (n + 3)) a).refs_put _ _) (by omega),
      (refBase (knot (n + 3)) a).put_put, hback]
    split
    · exact ⟨heffect, by simp [hzero]⟩
    · exact ⟨heffect, by simp [hzero]⟩
  · obtain ⟨m, hm⟩ : ∃ m, (l.withTemps s).strong a = m + 1 :=
      ⟨(l.withTemps s).strong a - 1, by omega⟩
    have hmoved := Moved.addStrong h hpos (by omega)
    rw [Totals.count_of_owned (h.owned hpos), hm] at hrefs
    rw [RefBase.attemptIncStrong.spec_owned hrefs (by omega) (by omega)]
    refine ⟨?_, iff_of_true rfl hpos⟩
    rw [hm, show m + 1 + 1 + (l.withTemps s).weak a = m + 1 + (l.withTemps s).weak a + 1 by omega]
      at hmoved
    exact Effect.of_moved hmoved Told.nil

/-! ## New proxies -/

/-- The commands that say nothing of strong references. -/
def plain : OutCommand → Bool
  | .BC_ACQUIRE _ | .BC_RELEASE _ => false
  | _ => true

theorem Books.plain {cmd : OutCommand} (h : plain cmd = true) : Books s t t [cmd] := by
  have hacquire : ∀ handle, cmd ≠ .BC_ACQUIRE handle := by
    rintro handle rfl
    cases h
  have hrelease : ∀ handle, cmd ≠ .BC_RELEASE handle := by
    rintro handle rfl
    cases h
  refine ⟨fun _ hc => hc, fun handle _ => ?_, fun b handle _ => ?_⟩
  · simp [Ne.symm (hacquire handle), Ne.symm (hrelease handle)]
  · simp [track, turn, hacquire handle, hrelease handle]

/-- A command that says nothing of strong references. -/
theorem Moved.plain {cmd : OutCommand} (h : Has t s) (hplain : plain cmd = true) :
    Moved t t s (Process.wrote cmd s) [] [] [cmd] where
  has := h.congr rfl
  same := rfl
  mOut := rfl
  queued := rfl
  weakDerefs := (List.append_nil _).symm
  strongDerefs := (List.append_nil _).symm
  sent := rfl
  pushed := fun _ => rfl
  released := rfl
  books := Books.plain hplain

theorem Told.plain {cmd : OutCommand} (hplain : Process.plain cmd = true) :
    Told s [] [] [cmd] := by
  right
  refine ⟨cmd, rfl, by simp, fun handle heq => ?_⟩
  rw [heq] at hplain
  cases hplain

theorem write.effect {cmd : OutCommand} (h : Has (l.withTemps s) s) (hplain : plain cmd = true) :
    wp (write cmd) (fun _ s' => Effect l l s s') never s := by
  rw [wp_write]
  exact Effect.of_moved (Moved.plain h hplain) (Told.plain hplain)

/-- The process that keeps a weak reference on `a`. -/
def keptWeak (a : Nat) (s : Process) : Process := { s with
  mPostWriteWeakDerefs := s.mPostWriteWeakDerefs ++ [a], pushed := s.pushed ++ [.weak a] }

@[simp] theorem fixed_keptWeak : (keptWeak a s).fixed = s.fixed := rfl

theorem Totals.withTemps_keptWeak (l : Totals) (a : Nat) (s : Process) :
    l.withTemps (keptWeak a s) = (l.withTemps s).setWeak a ((l.withTemps s).weak a + 1) := by
  unfold withTemps setWeak keptWeak
  congr 1
  funext b
  by_cases hba : b = a
  · subst hba
    simp [Nat.add_assoc]
  · simp [hba, Ne.symm hba]

theorem keepWeak.moved (h : Has (l.withTemps s) s)
    (hroom : (l.withTemps s).strong a + ((l.withTemps s).weak a + 1) < 2 ^ 20) :
    wp (keepWeak k a) (fun _ s' => Moved (l.withTemps s) (l.withTemps s') s s' [a] [] [])
      never s := by
  unfold keepWeak
  rw [wp_bind, incWeak.spec h, wp_update]
  have htemps := Totals.withTemps_keptWeak l a s
  have hhas := h.putWeak (a := a) rfl hroom
  rw [← htemps] at hhas
  exact
    { has := hhas.congr rfl
      same := fixed_keptWeak.trans fixed_putRefs
      mOut := (List.append_nil _).symm
      queued := (List.append_nil _).symm
      weakDerefs := rfl
      strongDerefs := (List.append_nil _).symm
      sent := rfl
      pushed := fun _ => List.count_append
      released := rfl
      books := Books.nil (fun _ hc => hc) fun _ _ => Iff.rfl }

theorem incWeakHandle.effect {n : Nat} {handle : BitVec 32} (h : Has (l.withTemps s) s)
    (hproxy : (s.objects a).binder_handle ≠ none)
    (hroom : (l.withTemps s).strong a + (l.withTemps s).weak a + 2 < 2 ^ 20) :
    wp (incWeakHandle (knot (n + 2)) handle a) (fun _ s' => Effect l l s s') never s := by
  unfold incWeakHandle
  rw [wp_bind, wp_write, wp_bind]
  have hwrote : Moved (l.withTemps s) (l.withTemps s) s (wrote (.BC_INCREFS handle) s) [] []
      [.BC_INCREFS handle] := Moved.plain h rfl
  by_cases hbusy : s.busy = true
  · rw [flushIfNeeded.spec_busy (by simpa using hbusy), if_neg (by decide)]
    refine wp_imp (keepWeak.moved (l := l) hwrote.has ?_) fun _ s' hkept => ?_
    · show (l.withTemps s).strong a + ((l.withTemps s).weak a + 1) < 2 ^ 20
      omega
    unfold Effect
    rw [if_pos hbusy]
    refine ⟨[a], [], [.BC_INCREFS handle], hwrote.trans hkept, Or.inr ⟨_, rfl, ?_, ?_⟩⟩
    · intro b hb
      rw [List.mem_singleton.mp hb]
      exact hproxy
    · intro handle' heq
      cases heq
  · rw [Bool.not_eq_true] at hbusy
    refine wp_imp (flushIfNeeded.spec_idle (l := l) hwrote.has
      (by simpa using hbusy)) fun flushed s' hflush => ?_
    obtain ⟨rfl, hflushed⟩ := hflush
    rw [if_pos rfl, wp_pure]
    unfold Effect
    rw [if_neg (by simp [hbusy])]
    exact hwrote.flushed.trans hflushed

end Process

end system_binder
