-- Two runs of programs, side by side: what holds of the two results together.
import SystemBinder.Prog

namespace prog

variable {σ τ ε α β γ δ : Type}

/-- From `s` and `t`, both programs return and `Q` holds of what they return, or both stop with
one fault. -/
def both (m : Prog σ ε α) (n : Prog τ ε β) (Q : α → σ → β → τ → Prop) (s : σ) (t : τ) : Prop :=
  match m s, n t with
  | .ok (a, s'), .ok (b, t') => Q a s' b t'
  | .error e, .error f => e = f
  | _, _ => False

section Rules

variable {Q R : α → σ → β → τ → Prop} {m m' : Prog σ ε α} {n n' : Prog τ ε β} {s : σ} {t : τ}

@[simp] theorem both_pure {a : α} {b : β} :
    both (pure a : Prog σ ε α) (pure b : Prog τ ε β) Q s t ↔ Q a s b t := Iff.rfl

@[simp] theorem both_fault {e f : ε} :
    both (fault e : Prog σ ε α) (fault f : Prog τ ε β) Q s t ↔ e = f := Iff.rfl

/-- What is known of each run alone, one inside the other. -/
theorem both_iff_wp : both m n Q s t ↔
    wp m (fun a s' => wp n (Q a s') never t) (fun e => wp n (fun _ _ => False) (e = ·) t) s := by
  unfold both wp
  rcases m s with e | ⟨a, s'⟩ <;> rcases n t with f | ⟨b, t'⟩ <;> exact Iff.rfl

theorem both_mono (h : both m n Q s t) (hQ : ∀ a s' b t', Q a s' b t' → R a s' b t') :
    both m n R s t := by
  rw [both_iff_wp] at h ⊢
  exact wp_mono h (fun a s' hn => wp_imp hn (hQ a s')) fun _ he => he

theorem both_bind {f : α → Prog σ ε γ} {g : β → Prog τ ε δ} {Q : γ → σ → δ → τ → Prop}
    (h : both m n (fun a s' b t' => both (f a) (g b) Q s' t') s t) :
    both (m >>= f) (n >>= g) Q s t := by
  rw [both_iff_wp, wp_bind]
  rw [both_iff_wp] at h
  refine wp_mono h (fun a s' hn => ?_) fun e hn => ?_
  · -- the second program runs up to its first result inside what follows the first
    unfold wp at hn
    rcases hrun : n t with e | ⟨b, t'⟩
    · rw [hrun] at hn
      exact absurd hn id
    · rw [hrun] at hn
      refine wp_mono (both_iff_wp.mp hn) (fun c s'' hc => ?_) fun e hc => ?_
      · rw [wp_bind, wp_of_ok hrun]
        exact hc
      · rw [wp_bind, wp_of_ok hrun]
        exact hc
  · rw [wp_bind]
    exact wp_imp hn fun _ _ hf => absurd hf id

/-- Both runs take the same branch. -/
theorem both_ite {c : Prop} [Decidable c] (hm : c → both m n Q s t) (hn : ¬c → both m' n' Q s t) :
    both (if c then m else m') (if c then n else n') Q s t := by
  split
  · exact hm ‹c›
  · exact hn ‹¬c›

/-- What can be told of both results is the same, if what `Q` relates looks the same. -/
theorem both.same {κ : Type} {f : α → σ → κ} {g : β → τ → κ}
    (h : both m n Q s t) (hQ : ∀ a s' b t', Q a s' b t' → f a s' = g b t') :
    (m s).map (fun r => f r.1 r.2) = (n t).map (fun r => g r.1 r.2) := by
  unfold both at h
  rcases hm : m s with e | ⟨a, s'⟩ <;> rcases hn : n t with e' | ⟨b, t'⟩ <;> rw [hm, hn] at h
  · exact congrArg Except.error h
  · exact absurd h id
  · exact absurd h id
  · exact congrArg Except.ok (hQ a s' b t' h)

end Rules

/-! ## What a program keeps between two runs -/

/-- From states that `R` relates, two runs of `m` return one value and states that `R` relates,
or stop with one fault. -/
def Keeps₂ (R : σ → τ → Prop) (m : Prog σ ε α) (n : Prog τ ε α) : Prop :=
  ∀ s t, R s t → both m n (fun a s' b t' => a = b ∧ R s' t') s t

theorem Keeps₂.bind {R : σ → τ → Prop} {m : Prog σ ε α} {n : Prog τ ε α} {f : α → Prog σ ε β}
    {g : α → Prog τ ε β} (hm : Keeps₂ R m n) (hf : ∀ a, Keeps₂ R (f a) (g a)) :
    Keeps₂ R (m >>= f) (n >>= g) := by
  intro s t hr
  refine both_bind (both_mono (hm s t hr) ?_)
  rintro a s' b t' ⟨rfl, hr'⟩
  exact hf a s' t' hr'

theorem Keeps₂.pure {R : σ → τ → Prop} (a : α) :
    Keeps₂ R (Pure.pure a : Prog σ ε α) (Pure.pure a : Prog τ ε α) :=
  fun _ _ hr => ⟨rfl, hr⟩

end prog
