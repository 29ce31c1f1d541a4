-- Code that is not the program's own. All that a program knows of it is what it sees of the state,
-- what it makes of its own part of the state, and which functions of the program it calls. Each
-- call may run more of the program before the code goes on.
import SystemBinder.Prog

namespace prog

/-! ## What programs keep together -/

section Families

variable {σ ε ι α β : Type}

/-- From every state of the family `Inv i` the program comes to a state of the same, and returns
something in `P`. It may stop with a fault. -/
def Stays (Inv : ι → σ → Prop) (P : α → Prop) (m : Prog σ ε α) : Prop :=
  ∀ i s, Inv i s → wp m (fun a s' => P a ∧ Inv i s') (fun _ => True) s

namespace Stays

variable {Inv : ι → σ → Prop} {P P' : α → Prop} {Q : β → Prop} {m : Prog σ ε α}
  {f : α → Prog σ ε β}

theorem pure {a : α} (h : P a) : Stays Inv P (Pure.pure a : Prog σ ε α) := fun _ _ hs => ⟨h, hs⟩

theorem fault (e : ε) : Stays Inv P (prog.fault e : Prog σ ε α) := fun _ _ _ => trivial

theorem update {g : σ → σ} (h : ∀ i s, Inv i s → Inv i (g s)) :
    Stays Inv (fun _ => True) (modify g : Prog σ ε PUnit) := fun i s hs => ⟨trivial, h i s hs⟩

theorem bind (hm : Stays Inv P m) (hf : ∀ a, P a → Stays Inv Q (f a)) :
    Stays Inv Q (m >>= f) := by
  intro i s hs
  rw [wp_bind]
  apply wp_imp (hm i s hs)
  rintro a s' ⟨ha, hs'⟩
  exact hf a ha i s' hs'

/-- A program that goes on with the state that it reads. -/
theorem look {k : σ → Prog σ ε β} (h : ∀ t, Stays Inv Q (k t)) :
    Stays Inv Q ((get : Prog σ ε σ) >>= k) := fun i s hs => h s i s hs

theorem imp (hm : Stays Inv P m) (h : ∀ a, P a → P' a) : Stays Inv P' m := by
  intro i s hs
  apply wp_imp (hm i s hs)
  rintro a s' ⟨ha, hs'⟩
  exact ⟨h a ha, hs'⟩

theorem ite {c : Prop} [Decidable c] {m' : Prog σ ε α} (hm : c → Stays Inv P m)
    (hm' : ¬c → Stays Inv P m') : Stays Inv P (if c then m else m') := by
  split
  · rename_i hc
    exact hm hc
  · rename_i hc
    exact hm' hc

/-- All of the family at once. -/
theorem keeps (hm : Stays Inv P m) :
    Keeps (fun s s' => ∀ i, Inv i s → Inv i s') (fun _ _ => True) m := by
  refine .of_result (fun s a s' hok i hs => ?_) fun _ _ _ => trivial
  exact ((hm i s hs).of_ok hok).2

end Stays

/-- To stay in every family that holds before is to be related in all of them. -/
theorem families_frame {Inv : ι → σ → Prop} :
    Frame (fun s s' => ∀ i, Inv i s → Inv i s') fun _ (_ : ε) => True where
  refl _ _ hs := hs
  trans h h' i hs := h' i (h i hs)
  stops _ _ := trivial

end Families

/-! ## Foreign code -/

/-- Code that sees an `O`, keeps a `V` of its own, calls functions `A` and is answered with `R`,
and ends with an `α`. -/
inductive Code (O V A R α : Type) : Type
  | done (a : α)
  | look (next : O → Code O V A R α)
  | put (w : V) (next : Code O V A R α)
  | call (a : A) (next : R → Code O V A R α)

/-- The states in which code runs: what it sees of them, and where its own part is. -/
structure Host (σ O V : Type) where
  see : σ → O
  put : V → σ → σ

namespace Code

variable {σ ε O V A R α : Type} (h : Host σ O V) (perform : A → Prog σ ε R)

/-- Runs the code, with `perform` for the functions that it calls. -/
def exec : Code O V A R α → Prog σ ε α
  | .done a => pure a
  | .look next => do
    let s ← get
    exec (next (h.see s))
  | .put w next => do
    modify (h.put w)
    exec next
  | .call a next => do
    let r ← perform a
    exec (next r)

/-- Code that has come so far, `c'` being what is left of it, when its calls until then have
returned. -/
inductive Reaches : Code O V A R α → σ → Code O V A R α → σ → Prop
  | here {c : Code O V A R α} {s : σ} : Reaches c s c s
  | look {next : O → Code O V A R α} {s s' : σ} {c' : Code O V A R α} :
      Reaches (next (h.see s)) s c' s' → Reaches (.look next) s c' s'
  | put {w : V} {next c' : Code O V A R α} {s s' : σ} :
      Reaches next (h.put w s) c' s' → Reaches (.put w next) s c' s'
  | call {a : A} {r : R} {next : R → Code O V A R α} {c' : Code O V A R α} {s t s' : σ} :
      perform a s = .ok (r, t) → Reaches (next r) t c' s' → Reaches (.call a next) s c' s'

/-- The code calls only what is in `ask`, as long as the answers are in `told`, and then ends with
something in `ends`. -/
def Asks (ask : A → Prop) (told : R → Prop) (ends : α → Prop) : Code O V A R α → Prop
  | .done a => ends a
  | .look next => ∀ o, Asks ask told ends (next o)
  | .put _ next => Asks ask told ends next
  | .call a next => ask a ∧ ∀ r, told r → Asks ask told ends (next r)

variable {h perform} {code : Code O V A R α}

variable {ι : Type} {Inv : ι → σ → Prop} {ask : A → Prop} {told : R → Prop} {ends : α → Prop}

/-- Where everything may be asked for, all code asks for what it may. -/
theorem asks_all (hask : ∀ a, ask a) (hends : ∀ a, ends a) : code.Asks ask told ends := by
  induction code with
  | done a => exact hends a
  | look next ih => exact fun o => ih o
  | put w next ih => exact ih
  | call a next ih => exact ⟨hask a, fun r _ => ih r⟩

/-- A family that the calls in `ask` keep, with answers in `told`, is kept by code that asks for no
more. -/
theorem stays_exec (hput : ∀ w i s, Inv i s → Inv i (h.put w s))
    (hcall : ∀ a, ask a → Stays Inv told (perform a)) (hcode : code.Asks ask told ends) :
    Stays Inv ends (exec h perform code) := by
  induction code with
  | done a => exact .pure hcode
  | look next ih => exact .look fun t => ih _ (hcode _)
  | put w next ih => exact .bind (.update (hput w)) fun _ _ => ih hcode
  | call a next ih => exact .bind (hcall a hcode.1) fun r hr => ih r (hcode.2 r hr)

/-- So it has kept it wherever it comes. -/
theorem Reaches.stays {c c' : Code O V A R α} {s s' : σ} (hreach : Reaches h perform c s c' s')
    (hput : ∀ w i s, Inv i s → Inv i (h.put w s))
    (hcall : ∀ a, ask a → Stays Inv told (perform a)) (hcode : c.Asks ask told ends) {i : ι}
    (hs : Inv i s) : Inv i s' := by
  induction hreach with
  | here => exact hs
  | look _ ih => exact ih (hcode _) hs
  | put _ ih => exact ih hcode (hput _ i _ hs)
  | call hok _ ih =>
    obtain ⟨htold, ht⟩ := (hcall _ hcode.1 i _ hs).of_ok hok
    exact ih (hcode.2 _ htold) ht

end Code

end prog
