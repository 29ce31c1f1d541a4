-- Programs that read and write a state and may stop with a fault, what a
-- program does from the state it starts in, and what holds at every step of
-- a run.
import Mathlib

namespace prog

variable {σ τ ε α β : Type}

/-- A program over a state `σ`. It returns an `α` or stops with a fault `ε`. -/
abbrev Prog (σ ε α : Type) := StateT σ (Except ε) α

/-- From `s`, `m` returns with a value and a state in `Q`, or stops with a fault in `E`. -/
def wp (m : Prog σ ε α) (Q : α → σ → Prop) (E : ε → Prop) (s : σ) : Prop :=
  match m s with
  | .ok (a, s') => Q a s'
  | .error e => E e

/-- No fault at all. -/
abbrev never : ε → Prop := fun _ => False

/-- Stops with the fault `e`. -/
def fault (e : ε) : Prog σ ε α := fun _ => .error e

/-- Runs `m` on the part of the state that `get` reads and `put` writes. -/
def zoom (get : τ → σ) (put : σ → τ → τ) (m : Prog σ ε α) : Prog τ ε α := fun t =>
  match m (get t) with
  | .ok (a, s') => .ok (a, put s' t)
  | .error e => .error e

/-! ## What each construct does -/

variable {Q R : α → σ → Prop} {E F : ε → Prop} {s : σ}

@[simp] theorem wp_pure (a : α) : wp (pure a : Prog σ ε α) Q E s ↔ Q a s := Iff.rfl

@[simp] theorem wp_fault (e : ε) : wp (fault e : Prog σ ε α) Q E s ↔ E e := Iff.rfl

@[simp] theorem wp_get {Q : σ → σ → Prop} : wp (get : Prog σ ε σ) Q E s ↔ Q s s := Iff.rfl

@[simp] theorem wp_set {Q : PUnit → σ → Prop} (t : σ) :
    wp (set t : Prog σ ε PUnit) Q E s ↔ Q ⟨⟩ t := Iff.rfl

@[simp] theorem wp_modify {Q : PUnit → σ → Prop} (f : σ → σ) :
    wp (modify f : Prog σ ε PUnit) Q E s ↔ Q ⟨⟩ (f s) := Iff.rfl

@[simp] theorem wp_bind (m : Prog σ ε α) (f : α → Prog σ ε β) {Q : β → σ → Prop} :
    wp (m >>= f) Q E s ↔ wp m (fun a s' => wp (f a) Q E s') E s := by
  unfold wp
  show (match (m s >>= fun p => f p.1 p.2 : Except ε (β × σ)) with
    | .ok (b, s') => Q b s'
    | .error e => E e) ↔ _
  rcases m s with e | ⟨a, s'⟩ <;> exact Iff.rfl

@[simp] theorem wp_map (m : Prog σ ε α) (f : α → β) {Q : β → σ → Prop} :
    wp (f <$> m) Q E s ↔ wp m (fun a => Q (f a)) E s := by
  rw [map_eq_pure_bind, wp_bind]
  exact Iff.rfl

@[simp] theorem wp_ite (c : Prop) [Decidable c] (m n : Prog σ ε α) :
    wp (if c then m else n) Q E s ↔ (c → wp m Q E s) ∧ (¬c → wp n Q E s) := by
  split
  · rename_i h
    simp only [h, forall_const, not_true_eq_false, false_implies, and_true]
  · rename_i h
    simp only [h, false_implies, not_false_eq_true, forall_const, true_and]

@[simp] theorem wp_zoom (g : τ → σ) (put : σ → τ → τ) (m : Prog σ ε α) {t : τ}
    {Q : α → τ → Prop} :
    wp (zoom g put m) Q E t ↔ wp m (fun a s' => Q a (put s' t)) E (g t) := by
  unfold wp zoom
  rcases m (g t) with e | ⟨a, s'⟩ <;> exact Iff.rfl

theorem wp_mono {m : Prog σ ε α} (h : wp m Q E s) (hQ : ∀ a s', Q a s' → R a s')
    (hE : ∀ e, E e → F e) : wp m R F s := by
  unfold wp at h ⊢
  rcases hm : m s with e | ⟨a, s'⟩
  · rw [hm] at h
    exact hE e h
  · rw [hm] at h
    exact hQ a s' h

theorem wp_imp {m : Prog σ ε α} (h : wp m Q E s) (hQ : ∀ a s', Q a s' → R a s') : wp m R E s :=
  wp_mono h hQ (fun _ he => he)

/-- A program does not do two things that exclude each other. -/
theorem wp_absurd {m : Prog σ ε α} (h : wp m Q E s) (h' : wp m R F s)
    (hok : ∀ a s', Q a s' → ¬R a s') (herror : ∀ e, E e → ¬F e) : False := by
  unfold wp at h h'
  rcases hm : m s with e | ⟨a, s'⟩
  · rw [hm] at h h'
    exact herror e h h'
  · rw [hm] at h h'
    exact hok a s' h h'

/-- What holds where the program returns, added to what is known of it. -/
theorem wp_and_returned {m : Prog σ ε α} (h : wp m Q E s) (h' : wp m R (fun _ => True) s) :
    wp m (fun a s' => Q a s' ∧ R a s') E s := by
  unfold wp at h h' ⊢
  rcases hm : m s with e | ⟨a, s'⟩
  · rw [hm] at h
    exact h
  · rw [hm] at h h'
    exact ⟨h, h'⟩

/-- Whatever a program does, it does what everything satisfies. -/
theorem wp_of_all {m : Prog σ ε α} (hQ : ∀ a s', Q a s') (hE : ∀ e, E e) : wp m Q E s := by
  unfold wp
  rcases m s with e | ⟨a, s'⟩
  · exact hE e
  · exact hQ a s'

/-- A program that never faults returns something. -/
theorem wp_never_iff {m : Prog σ ε α} :
    wp m Q never s ↔ ∃ a s', m s = .ok (a, s') ∧ Q a s' := by
  unfold wp
  rcases m s with e | ⟨a, s'⟩
  · simp
  · constructor
    · intro h
      exact ⟨a, s', rfl, h⟩
    · rintro ⟨b, t, hbt, h⟩
      cases hbt
      exact h

theorem wp_of_ok {m : Prog σ ε α} {a : α} {s' : σ} (h : m s = .ok (a, s')) :
    wp m Q E s ↔ Q a s' := by
  unfold wp
  rw [h]

theorem wp_of_error {m : Prog σ ε α} {e : ε} (h : m s = .error e) : wp m Q E s ↔ E e := by
  unfold wp
  rw [h]

/-- A program that never returns faults. -/
theorem wp_false_iff {m : Prog σ ε α} {e : ε} :
    wp m (fun _ _ => False) (· = e) s ↔ m s = .error e := by
  unfold wp
  rcases m s with e' | ⟨a, s'⟩ <;> simp

/-- What a program does from one state can be computed. -/
instance decidableWp {m : Prog σ ε α} [∀ a t, Decidable (Q a t)] [∀ e, Decidable (E e)] :
    Decidable (wp m Q E s) :=
  match h : m s with
  | .ok (_, _) => decidable_of_iff' _ (wp_of_ok h)
  | .error _ => decidable_of_iff' _ (wp_of_error h)

/-- What a returning program satisfies, it satisfies at the value it returns. -/
theorem wp.of_ok {m : Prog σ ε α} {a : α} {s' : σ} (h : wp m Q E s) (hm : m s = .ok (a, s')) :
    Q a s' := (wp_of_ok hm).mp h

/-! ## What a program returns -/

/-- The program returns only what satisfies `P`. -/
def Returns (P : α → Prop) (m : Prog σ ε α) : Prop :=
  ∀ s, wp m (fun a _ => P a) (fun _ => True) s

/-- What a program does, read off its result. -/
theorem wp_of_result {m : Prog σ ε α} {Q : α → σ → Prop} {E : ε → Prop} {s : σ}
    (hok : ∀ a s', m s = .ok (a, s') → Q a s') (herror : ∀ e, m s = .error e → E e) :
    wp m Q E s := by
  unfold wp
  split
  · rename_i a s' h
    exact hok a s' h
  · rename_i e h
    exact herror e h

namespace Returns

variable {P : α → Prop} {Q : β → Prop}

theorem pure {a : α} (h : P a) : Returns P (Pure.pure a : Prog σ ε α) := fun _ => h

theorem bind {m : Prog σ ε α} {f : α → Prog σ ε β} (hm : Returns P m)
    (hf : ∀ a, P a → Returns Q (f a)) : Returns Q (m >>= f) := by
  intro s
  rw [wp_bind]
  exact wp_imp (hm s) fun a s' ha => hf a ha s'

/-- Whatever comes before. -/
theorem after {m : Prog σ ε α} {f : α → Prog σ ε β} (hf : ∀ a, Returns Q (f a)) :
    Returns Q (m >>= f) := by
  intro s
  rw [wp_bind]
  exact wp_imp (wp_of_all (fun _ _ => trivial) fun _ => trivial : wp m (fun _ _ => True) _ s)
    fun a s' _ => hf a s'

theorem ite {b : Prop} [Decidable b] {m m' : Prog σ ε α} (hm : b → Returns P m)
    (hm' : ¬b → Returns P m') : Returns P (if b then m else m') := by
  intro s
  rw [wp_ite]
  exact ⟨fun h => hm h s, fun h => hm' h s⟩

end Returns

/-! ## Loops -/

/-- A loop over a list keeps what its body keeps. `I done b` is what holds when the elements of
`done` have been through it. -/
theorem wp_foldlM {l : List α} {f : β → α → Prog σ ε β} (I : List α → β → σ → Prop)
    (hstep : ∀ done a rest b s, l = done ++ a :: rest → I done b s →
      wp (f b a) (I (done ++ [a])) E s)
    {b : β} (h0 : I [] b s) : wp (l.foldlM f b) (I l) E s := by
  suffices h : ∀ rest done b s, l = done ++ rest → I done b s →
      wp (rest.foldlM f b) (I l) E s from h l [] b s rfl h0
  intro rest
  induction rest with
  | nil =>
    intro done b s hl hi
    rw [List.append_nil] at hl
    rw [List.foldlM_nil, wp_pure, hl]
    exact hi
  | cons a rest ih =>
    intro done b s hl hi
    rw [List.foldlM_cons, wp_bind]
    refine wp_imp (hstep done a rest b s hl hi) fun b' s' hi' => ?_
    apply ih (done ++ [a]) b' s' _ hi'
    rw [hl, List.append_assoc, List.singleton_append]

/-- A number of a range has as many before it. -/
theorem range_next {n i : Nat} {done rest : List Nat} (h : List.range n = done ++ i :: rest) :
    i = done.length ∧ done.length < n := by
  have hget : (List.range n)[done.length]? = some i := by
    rw [h, List.getElem?_append_right (Nat.le_refl _), Nat.sub_self]
    rfl
  obtain ⟨hlt, hval⟩ := List.getElem?_eq_some_iff.mp hget
  rw [List.length_range] at hlt
  rw [List.getElem_range] at hval
  exact ⟨hval.symm, hlt⟩

/-- A loop that counts to `n`. `I i b` is what holds when `i` turns are done. -/
theorem wp_foldlM_range {n : Nat} {f : β → Nat → Prog σ ε β} (I : Nat → β → σ → Prop)
    (hstep : ∀ i b s, i < n → I i b s → wp (f b i) (I (i + 1)) E s)
    {b : β} (h0 : I 0 b s) : wp ((List.range n).foldlM f b) (I n) E s := by
  have hloop := wp_foldlM (E := E) (l := List.range n) (f := f)
    (fun done b s => I done.length b s) (b := b) (s := s)
  refine wp_imp (hloop ?_ h0) fun b' s' h => ?_
  · intro done i rest b s hsplit hdone
    obtain ⟨rfl, hlt⟩ := range_next hsplit
    refine wp_imp (hstep _ b s hlt hdone) fun b' s' h => ?_
    rwa [List.length_append, List.length_singleton]
  · rwa [List.length_range] at h

/-! ## Frames -/

section Frames

/-- From every state, `m` ends in a state that `R` relates to it, or stops with a fault that `E`
relates to it. -/
def Keeps (R : σ → σ → Prop) (E : σ → ε → Prop) (m : Prog σ ε α) : Prop :=
  ∀ s, wp m (fun _ s' => R s s') (E s) s

/-- What programs that run one after another keep together. -/
structure Frame (R : σ → σ → Prop) (E : σ → ε → Prop) : Prop where
  refl : ∀ s, R s s
  trans : ∀ {s s' s''}, R s s' → R s' s'' → R s s''
  stops : ∀ {s s' e}, R s s' → E s' e → E s e

variable {R : σ → σ → Prop} {E : σ → ε → Prop}

theorem Frame.pure (h : Frame R E) (a : α) : Keeps R E (Pure.pure a : Prog σ ε α) :=
  fun s => h.refl s

theorem Frame.bind (h : Frame R E) {m : Prog σ ε α} {f : α → Prog σ ε β} (hm : Keeps R E m)
    (hf : ∀ a, Keeps R E (f a)) : Keeps R E (m >>= f) := by
  intro s
  rw [wp_bind]
  refine wp_imp (hm s) fun a s' hr => ?_
  exact wp_mono (hf a s') (fun _ _ hr' => h.trans hr hr') fun _ he => h.stops hr he

theorem Keeps.ite {c : Prop} [Decidable c] {m n : Prog σ ε α} (hm : Keeps R E m)
    (hn : Keeps R E n) : Keeps R E (if c then m else n) := by
  split
  · exact hm
  · exact hn

/-- A program that faults from nowhere it may not. -/
theorem Keeps.of_result {m : Prog σ ε α} (h : ∀ s a s', m s = .ok (a, s') → R s s')
    (hE : ∀ s e, m s = .error e → E s e) : Keeps R E m := by
  intro s
  unfold wp
  split
  · rename_i a s' hm
    exact h s a s' hm
  · rename_i e hm
    exact hE s e hm

end Frames

/-! ## Runs -/

section Runs

variable {op : Type} (step : op → Prog σ ε β)

/-- `P` holds of every operation that a run over `ops` from `s` comes to: of the
operation, the state before it and what it does there. A fault ends the run. -/
def Always (P : op → σ → Except ε (β × σ) → Prop) : List op → σ → Prop
  | [], _ => True
  | o :: os, s => P o s (step o s) ∧ ∀ b s', step o s = .ok (b, s') → Always P os s'

/-- Every operation of the run is allowed by `cond` in the state it meets. -/
def Allowed (cond : op → σ → Prop) : List op → σ → Prop :=
  Always step (fun o s _ => cond o s)

variable {step}
variable {P P' : op → σ → Except ε (β × σ) → Prop} {cond : op → σ → Prop}

theorem Always.imp {ops : List op} {s : σ} (h : Always step P ops s)
    (hP : ∀ o t, P o t (step o t) → P' o t (step o t)) : Always step P' ops s := by
  induction ops generalizing s with
  | nil => trivial
  | cons o os ih =>
    obtain ⟨ho, hrest⟩ := h
    exact ⟨hP o s ho, fun b s' hs => ih (hrest b s' hs)⟩

/-- A run can be checked step by step. -/
instance decidableAlways [h : ∀ o t r, Decidable (P o t r)] :
    ∀ (ops : List op) (s : σ), Decidable (Always step P ops s)
  | [], _ => isTrue trivial
  | o :: os, s =>
    match hrun : step o s with
    | .ok (b, s') =>
      have := decidableAlways os s'
      decidable_of_iff (P o s (.ok (b, s')) ∧ Always step P os s') (by
        show _ ↔ P o s (step o s) ∧ _
        rw [hrun]
        constructor
        · rintro ⟨ho, hrest⟩
          refine ⟨ho, fun c t ht => ?_⟩
          cases ht
          exact hrest
        · rintro ⟨ho, hrest⟩
          exact ⟨ho, hrest b s' rfl⟩)
    | .error e =>
      decidable_of_iff (P o s (.error e)) (by
        show _ ↔ P o s (step o s) ∧ _
        rw [hrun]
        exact ⟨fun ho => ⟨ho, fun _ _ ht => by cases ht⟩, fun h => h.1⟩)

instance decidableAllowed [h : ∀ o t, Decidable (cond o t)] (ops : List op) (s : σ) :
    Decidable (Allowed step cond ops s) := decidableAlways (h := fun o t _ => h o t) ops s

/-- An invariant that every allowed step keeps, and that gives `P` at each step,
gives `P` along every allowed run. -/
theorem always_of_inv (Inv : σ → Prop)
    (hP : ∀ o s, Inv s → cond o s → P o s (step o s))
    (hInv : ∀ o s b s', Inv s → cond o s → step o s = .ok (b, s') → Inv s')
    {ops : List op} {s : σ} (h0 : Inv s) (hc : Allowed step cond ops s) :
    Always step P ops s := by
  induction ops generalizing s with
  | nil => trivial
  | cons o os ih =>
    obtain ⟨ho, hrest⟩ := hc
    exact ⟨hP o s h0 ho, fun b s' hs => ih (hInv o s b s' h0 ho hs) (hrest b s' hs)⟩

theorem allowed_all {ops : List op} {s : σ} : Allowed step (fun _ _ => True) ops s := by
  induction ops generalizing s with
  | nil => trivial
  | cons o os ih => exact ⟨trivial, fun _ _ _ => ih⟩

/-- Where an invariant makes `cond` say exactly when `P` holds of a step, it says so of runs:
`P` holds along a run exactly when every step of the run is allowed. -/
theorem always_iff_of_inv (Inv : σ → Prop)
    (hP : ∀ o s, Inv s → (P o s (step o s) ↔ cond o s))
    (hInv : ∀ o s b s', Inv s → cond o s → step o s = .ok (b, s') → Inv s')
    {ops : List op} {s : σ} (h0 : Inv s) :
    Always step P ops s ↔ Allowed step cond ops s := by
  induction ops generalizing s with
  | nil => exact Iff.rfl
  | cons o os ih =>
    constructor
    · rintro ⟨ho, hrest⟩
      have hc := (hP o s h0).mp ho
      exact ⟨hc, fun b s' hs => (ih (hInv o s b s' h0 hc hs)).mp (hrest b s' hs)⟩
    · rintro ⟨hc, hrest⟩
      exact ⟨(hP o s h0).mpr hc, fun b s' hs => (ih (hInv o s b s' h0 hc hs)).mpr (hrest b s' hs)⟩

end Runs

/-! ## Steps with guards -/

section Guarded

variable {σ op : Type} {step : op → σ → Option σ}

/-- The state after a list of steps. A step gives none where it cannot be taken. -/
def after (step : op → σ → Option σ) : List op → σ → Option σ
  | [], s => some s
  | o :: os, s => (step o s).bind (after step os)

@[simp] theorem after_nil {s : σ} : after step [] s = some s := rfl

@[simp] theorem after_cons {o : op} {os : List op} {s : σ} :
    after step (o :: os) s = (step o s).bind (after step os) := rfl

/-- Every step of the list meets `cond` in the state before it. -/
def Meets (step : op → σ → Option σ) (cond : op → σ → Prop) : List op → σ → Prop
  | [], _ => True
  | o :: os, s => cond o s ∧ ∀ s', step o s = some s' → Meets step cond os s'

instance decidableMeets {cond : op → σ → Prop} [h : ∀ o t, Decidable (cond o t)] :
    ∀ (ops : List op) (s : σ), Decidable (Meets step cond ops s)
  | [], _ => isTrue trivial
  | o :: os, s =>
    match hstep : step o s with
    | some t =>
      have : Decidable (Meets step cond os t) := decidableMeets os t
      decidable_of_iff (cond o s ∧ Meets step cond os t) (by simp [Meets, hstep])
    | none => decidable_of_iff (cond o s) (by simp [Meets, hstep])

/-- What every step that meets `cond` keeps holds after any list of such steps. -/
theorem after_inv_of_meets {cond : op → σ → Prop} (Inv : σ → Prop)
    (hstep : ∀ o s s', step o s = some s' → cond o s → Inv s → Inv s')
    {ops : List op} {s s' : σ} (hmeets : Meets step cond ops s) (h : after step ops s = some s')
    (h0 : Inv s) : Inv s' := by
  induction ops generalizing s with
  | nil =>
    cases h
    exact h0
  | cons o os ih =>
    rw [after_cons, Option.bind_eq_some_iff] at h
    obtain ⟨t, hone, hrest⟩ := h
    exact ih (hmeets.2 t hone) hrest (hstep o s t hone hmeets.1 h0)

theorem meets_true {ops : List op} {s : σ} : Meets step (fun _ _ => True) ops s := by
  induction ops generalizing s with
  | nil => trivial
  | cons o os ih => exact ⟨trivial, fun _ _ => ih⟩

/-- What every operation of a list meets is met at every step. -/
theorem Meets.of_mem {cond : op → Prop} {ops : List op} {s : σ} (h : ∀ o ∈ ops, cond o) :
    Meets step (fun o _ => cond o) ops s := by
  induction ops generalizing s with
  | nil => trivial
  | cons o os ih =>
    exact ⟨h o List.mem_cons_self, fun _ _ => ih fun o' ho' => h o' (List.mem_cons_of_mem _ ho')⟩

/-- What follows from `P` where an invariant holds, follows at every step of a list. The steps need
to keep the invariant only where `P` holds. -/
theorem Meets.imp_of_inv {P Q : op → σ → Prop} (Inv : σ → Prop)
    (hPQ : ∀ o s, Inv s → P o s → Q o s)
    (hInv : ∀ o s s', step o s = some s' → P o s → Inv s → Inv s')
    {ops : List op} {s : σ} (h0 : Inv s) (h : Meets step P ops s) : Meets step Q ops s := by
  induction ops generalizing s with
  | nil => trivial
  | cons o os ih => exact ⟨hPQ o s h0 h.1, fun s' hs => ih (hInv o s s' hs h.1 h0) (h.2 s' hs)⟩

/-- What every step keeps holds after any list of steps. -/
theorem after_inv (Inv : σ → Prop) (hstep : ∀ o s s', step o s = some s' → Inv s → Inv s')
    {ops : List op} {s s' : σ} (h : after step ops s = some s') (h0 : Inv s) : Inv s' :=
  after_inv_of_meets Inv (fun o s s' hone _ => hstep o s s' hone) meets_true h h0

/-- `P` holds in every state that the steps of the list come to. -/
def Throughout (step : op → σ → Option σ) (P : σ → Prop) : List op → σ → Prop
  | [], s => P s
  | o :: os, s => P s ∧ ∀ s', step o s = some s' → Throughout step P os s'

/-- Where steps that meet `cond` keep `P` and all others break it, `P` holds throughout exactly
the runs whose steps all meet `cond`. -/
theorem throughout_iff_meets {cond : op → σ → Prop} {P : σ → Prop} (Inv : σ → Prop)
    (hInv : ∀ o s s', step o s = some s' → Inv s → Inv s')
    (hkeep : ∀ o s s', step o s = some s' → Inv s → P s → cond o s → P s')
    (hbreak : ∀ o s, Inv s → P s → ¬cond o s → ∃ s', step o s = some s' ∧ ¬P s')
    {ops : List op} {s : σ} (h0 : Inv s) (hP : P s) :
    Throughout step P ops s ↔ Meets step cond ops s := by
  have hhead : ∀ os s, Throughout step P os s → P s := by
    intro os s h
    cases os with
    | nil => exact h
    | cons o os => exact h.1
  induction ops generalizing s with
  | nil => exact ⟨fun _ => trivial, fun _ => hP⟩
  | cons o os ih =>
    constructor
    · rintro ⟨-, hrest⟩
      have hcond : cond o s := by
        by_contra hno
        obtain ⟨s', hs, hnot⟩ := hbreak o s h0 hP hno
        exact hnot (hhead os s' (hrest s' hs))
      refine ⟨hcond, fun s' hs => ?_⟩
      exact (ih (hInv o s s' hs h0) (hkeep o s s' hs h0 hP hcond)).mp (hrest s' hs)
    · rintro ⟨hcond, hrest⟩
      refine ⟨hP, fun s' hs => ?_⟩
      exact (ih (hInv o s s' hs h0) (hkeep o s s' hs h0 hP hcond)).mpr (hrest s' hs)

end Guarded

end prog
