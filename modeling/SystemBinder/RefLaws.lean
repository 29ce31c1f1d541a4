-- The law of the reference counts: whatever operations run on an object, its
-- two counts are the references that its users hold, and its virtual functions
-- are told at the right moments.
import SystemBinder.RefCounts

open prog

namespace system_binder.ref_laws

/-! ## One object and its users -/

/-- The virtual functions of `RefBase`. -/
inductive Hook
  | firstRef
  | lastStrongRef
  | incStrongAttempted
  | lastWeakRef
deriving DecidableEq, Repr

/-- What a class does in its virtual functions. They see the rest of the world
and cannot reach the counts of the object. -/
structure Hooks (W : Type) where
  onFirstRef : W → W
  onLastStrongRef : W → W
  onIncStrongAttempted : W → Bool × W
  onLastWeakRef : W → W

/-- An object, the calls of its virtual functions so far, and the rest of the world. -/
structure Obj (W : Type) where
  refs : WeakrefImpl
  calls : List Hook
  world : W

variable {W : Type}

/-- Notes the call of a virtual function and runs its body. -/
def Obj.call (x : Obj W) (hook : Hook) (world : W) : Obj W :=
  { x with calls := x.calls ++ [hook], world := world }

/-- The object of a class with these virtual functions. -/
def Hooks.object (h : Hooks W) : RefBase (Obj W) where
  refs := Obj.refs
  putRefs := fun r x => { x with refs := r }
  refs_put := fun _ _ => rfl
  put_put := fun _ _ _ => rfl
  put_refs := fun _ => rfl
  onFirstRef := fun x => .ok ((), x.call .firstRef (h.onFirstRef x.world))
  onLastStrongRef := fun x => .ok ((), x.call .lastStrongRef (h.onLastStrongRef x.world))
  onIncStrongAttempted := fun x => .ok ((h.onIncStrongAttempted x.world).1,
    x.call .incStrongAttempted (h.onIncStrongAttempted x.world).2)
  onLastWeakRef := fun x => .ok ((), x.call .lastWeakRef (h.onLastWeakRef x.world))

inductive Op
  | incStrong
  | incStrongRequireStrong
  | forceIncStrong
  | attemptIncStrong
  | decStrong
  | incWeak
  | incWeakRequireWeak
  | attemptIncWeak
  | decWeak
deriving DecidableEq, Repr

/-- One operation on the object. It returns `true` where the source returns nothing. -/
def perform (o : RefBase (Obj W)) : Op → Prog (Obj W) Fault Bool
  | .incStrong => (fun _ => true) <$> o.incStrong
  | .incStrongRequireStrong => (fun _ => true) <$> o.incStrongRequireStrong
  | .forceIncStrong => (fun _ => true) <$> o.forceIncStrong
  | .attemptIncStrong => o.attemptIncStrong
  | .decStrong => (fun _ => true) <$> o.decStrong
  | .incWeak => (fun _ => true) <$> o.incWeak
  | .incWeakRequireWeak => (fun _ => true) <$> o.incWeakRequireWeak
  | .attemptIncWeak => o.attemptIncWeak
  | .decWeak => (fun _ => true) <$> o.decWeak

/-- What the users of the object hold. -/
structure Ledger where
  owned : Bool
  strong : Nat
  weak : Nat
deriving DecidableEq, Repr

/-- What they hold after an operation that returned `b`. -/
def Ledger.after (l : Ledger) (op : Op) (b : Bool) : Ledger :=
  match op with
  | .incStrong | .incStrongRequireStrong | .forceIncStrong =>
    { l with owned := true, strong := l.strong + 1 }
  | .attemptIncStrong => if b then { l with owned := true, strong := l.strong + 1 } else l
  | .decStrong => { l with strong := l.strong - 1 }
  | .incWeak | .incWeakRequireWeak => { l with weak := l.weak + 1 }
  | .attemptIncWeak => if b then { l with weak := l.weak + 1 } else l
  | .decWeak => { l with weak := l.weak - 1 }

/-- The object together with what its users hold. -/
def step (h : Hooks W) (op : Op) : Prog (Obj W × Ledger) Fault Bool := fun s =>
  match perform h.object op s.1 with
  | .ok (b, x) => .ok (b, (x, s.2.after op b))
  | .error e => .error e

/-- What the users must respect: a release returns a reference they hold, the
`Require` variants have what they require, and references stay below `MAX_COUNT`. -/
def Respects (op : Op) (s : Obj W × Ledger) : Prop :=
  let l := s.2
  match op with
  | .incStrong => (l.owned = false ∨ 0 < l.strong) ∧ l.strong + l.weak < MAX_COUNT.toNat
  | .incStrongRequireStrong => 0 < l.strong ∧ l.strong + l.weak < MAX_COUNT.toNat
  | .incWeakRequireWeak => 0 < l.strong + l.weak ∧ l.strong + l.weak < MAX_COUNT.toNat
  | .decStrong => 0 < l.strong
  | .decWeak => 0 < l.weak
  | .forceIncStrong | .attemptIncStrong | .incWeak | .attemptIncWeak =>
    l.strong + l.weak < MAX_COUNT.toNat

/-- The counts of the object are the references that its users hold. -/
def Tally (s : Obj W × Ledger) : Prop :=
  s.1.refs.mStrong.toNat = (if s.2.owned then s.2.strong else INITIAL_STRONG_VALUE.toNat) ∧
    s.1.refs.mWeak.toNat = s.2.weak + s.2.strong

/-- When `attemptIncStrong` is refused: there is no strong reference left, or in weak
mode there is none and the object does not agree. -/
def Refused (h : Hooks W) (x : Obj W) : Prop :=
  if strongMode x.refs.mFlags then x.refs.mStrong = 0
  else (x.refs.mStrong = 0 ∨ x.refs.mStrong = INITIAL_STRONG_VALUE) ∧
    (h.onIncStrongAttempted x.world).1 = false

/-- What an operation that returned `b` leaves behind. -/
structure Good (h : Hooks W) (op : Op) (s : Obj W × Ledger) (b : Bool) (s' : Obj W × Ledger) :
    Prop where
  ledger : s'.2 = s.2.after op b
  tally : Tally s'
  lastStrong : ∃ new, s'.1.calls = s.1.calls ++ new ∧
    new.count .lastStrongRef = if s.2.strong = 1 ∧ s'.2.strong = 0 then 1 else 0
  refused : op = .attemptIncStrong → (b = false ↔ Refused h s.1)
  unchanged : op = .attemptIncStrong → b = false → s'.1.refs = s.1.refs

/-- Before its first reference, in the lifetime mode that its class chose. -/
def start (mode : BitVec 32) (world : W) : Obj W × Ledger :=
  (⟨WeakrefImpl.ctor.extendObjectLifetime mode, [], world⟩, ⟨false, 0, 0⟩)

/-! ## One operation -/

/-- The strong count that a ledger asks for. -/
def Ledger.strongCount (l : Ledger) : Option Nat := if l.owned then some l.strong else none

/-- The invariant of a run. -/
structure Kept (f : BitVec 32) (x : Obj W) (l : Ledger) : Prop where
  refs : x.refs = counts f l.strongCount (l.weak + l.strong)
  unowned : l.owned = false → l.strong = 0
  below : l.weak + l.strong < 2 ^ 20

theorem lt_maxCount {n : Nat} : n < MAX_COUNT.toNat ↔ n + 1 < 2 ^ 20 := by
  rw [show MAX_COUNT.toNat = 2 ^ 20 - 1 from rfl]
  omega

theorem Kept.tally {f : BitVec 32} {x : Obj W} {l : Ledger} (k : Kept f x l) : Tally (x, l) := by
  obtain ⟨owned, strong, weak⟩ := l
  obtain ⟨hr, -, hb⟩ := k
  simp only [Ledger.strongCount] at hr hb
  unfold Tally
  simp only [hr, counts, BitVec.toNat_ofNat]
  refine ⟨?_, by omega⟩
  rcases owned with _ | _
  · rfl
  · simp only [if_true, strongWord, BitVec.toNat_ofNat]
    omega

/-- What one operation owes: the result `b`, the object `x'` and the ledger after it. -/
def Owes (h : Hooks W) (f : BitVec 32) (op : Op) (x : Obj W) (l : Ledger) (b : Bool)
    (x' : Obj W) : Prop :=
  Good h op (x, l) b (x', l.after op b) ∧ Kept f x' (l.after op b)

/-- An operation other than `attemptIncStrong` owes the counts and the calls. -/
theorem owes_of_kept {h : Hooks W} {f : BitVec 32} {op : Op} {x x' : Obj W} {l : Ledger}
    {b : Bool} (hop : op ≠ .attemptIncStrong) (new : List Hook)
    (hnew : x'.calls = x.calls ++ new)
    (hcount : new.count .lastStrongRef =
      if l.strong = 1 ∧ (l.after op b).strong = 0 then 1 else 0)
    (k : Kept f x' (l.after op b)) : Owes h f op x l b x' :=
  ⟨⟨rfl, k.tally, ⟨new, hnew, hcount⟩, fun e => absurd e hop, fun e => absurd e hop⟩, k⟩

section Steps

variable {h : Hooks W} {f : BitVec 32} {x : Obj W} {owned : Bool} {strong weak n w : Nat}

/-- The ledger of an object with a strong reference. -/
theorem Kept.of_pos (k : Kept f x ⟨owned, strong, weak⟩) (hpos : 0 < strong) :
    owned = true ∧ ∃ n, strong = n + 1 ∧ x.refs = counts f (some (n + 1)) (weak + n + 1) := by
  obtain ⟨hr, hun, -⟩ := k
  rcases owned with _ | _
  · have h0 : strong = 0 := hun rfl
    omega
  · refine ⟨rfl, strong - 1, by omega, ?_⟩
    rw [hr]
    have hs : strong - 1 + 1 = strong := by omega
    simp only [Ledger.strongCount, if_true, Nat.add_assoc, hs]

/-- The ledger of an object without one. -/
theorem Kept.of_zero (k : Kept f x ⟨owned, 0, weak⟩) :
    ∃ st, strongRefs st = 0 ∧ x.refs = counts f st weak := by
  obtain ⟨hr, -, -⟩ := k
  refine ⟨Ledger.strongCount ⟨owned, 0, weak⟩, ?_, hr⟩
  rcases owned with _ | _ <;> rfl

theorem kept_owned (hr : x.refs = counts f (some n) (w + n)) (hb : w + n < 2 ^ 20) :
    Kept f x ⟨true, n, w⟩ where
  refs := hr
  unowned := fun e => absurd e (by simp)
  below := hb

theorem incStrong_owes (k : Kept f x ⟨owned, strong, weak⟩) (hown : owned = false ∨ 0 < strong)
    (hlt : strong + weak + 1 < 2 ^ 20) :
    wp (perform h.object .incStrong) (Owes h f .incStrong x ⟨owned, strong, weak⟩) never x := by
  simp only [perform, wp_map]
  by_cases hpos : 0 < strong
  · obtain ⟨rfl, n, rfl, hr⟩ := k.of_pos hpos
    rw [RefBase.incStrong.spec_owned (o := h.object) hr (by omega) (by omega)]
    refine owes_of_kept (by decide) [] (by simp [Hooks.object]) (by simp [Ledger.after]) ?_
    exact kept_owned (n := n + 2) (w := weak) rfl (by omega)
  · have h0 : strong = 0 := by omega
    subst h0
    have ho : owned = false := hown.resolve_right (by omega)
    subst ho
    have hr : x.refs = counts f none weak := k.refs
    rw [RefBase.incStrong.spec_first (o := h.object) hr (by omega)]
    exact owes_of_kept (by decide) [.firstRef] rfl rfl
      (kept_owned (n := 1) (w := weak) rfl (by omega))

theorem incStrongRequireStrong_owes (k : Kept f x ⟨owned, strong, weak⟩) (hpos : 0 < strong)
    (hlt : strong + weak + 1 < 2 ^ 20) :
    wp (perform h.object .incStrongRequireStrong)
      (Owes h f .incStrongRequireStrong x ⟨owned, strong, weak⟩) never x := by
  obtain ⟨rfl, n, rfl, hr⟩ := k.of_pos hpos
  simp only [perform, wp_map]
  rw [RefBase.incStrongRequireStrong.spec (o := h.object) hr (by omega) (by omega)]
  refine owes_of_kept (by decide) [] (by simp [Hooks.object]) (by simp [Ledger.after]) ?_
  exact kept_owned (n := n + 2) (w := weak) rfl (by omega)

theorem forceIncStrong_owes (k : Kept f x ⟨owned, strong, weak⟩)
    (hlt : strong + weak + 1 < 2 ^ 20) :
    wp (perform h.object .forceIncStrong)
      (Owes h f .forceIncStrong x ⟨owned, strong, weak⟩) never x := by
  simp only [perform, wp_map]
  by_cases hpos : 0 < strong
  · obtain ⟨rfl, n, rfl, hr⟩ := k.of_pos hpos
    rw [RefBase.forceIncStrong.spec_owned (o := h.object) hr (by omega) (by omega)]
    refine owes_of_kept (by decide) [] (by simp [Hooks.object]) (by simp [Ledger.after]) ?_
    exact kept_owned (n := n + 2) (w := weak) rfl (by omega)
  · have h0 : strong = 0 := by omega
    subst h0
    obtain ⟨st, hst, hr⟩ := k.of_zero
    rw [RefBase.forceIncStrong.spec_first (o := h.object) hr hst (by omega)]
    exact owes_of_kept (by decide) [.firstRef] rfl rfl
      (kept_owned (n := 1) (w := weak) rfl (by omega))

/-- What a dropped reference leaves: the last one of all is told in weak mode. -/
theorem decWeak_then {st : Option Nat} {Q : Obj W → Prop} {E : Fault → Prop}
    (hr : x.refs = counts f st (w + 1)) (hb : w + 1 < 2 ^ 20)
    (hQ : ∀ new world, new.count .lastStrongRef = 0 →
      Q ⟨counts f st w, x.calls ++ new, world⟩) :
    wp h.object.decWeak (fun _ => Q) E x := by
  rw [RefBase.decWeak.spec (o := h.object) hr hb]
  split
  · exact hQ [.lastWeakRef] _ rfl
  · have := hQ [] x.world rfl
    rwa [List.append_nil] at this

theorem decStrong_owes (k : Kept f x ⟨owned, strong, weak⟩) (hpos : 0 < strong) :
    wp (perform h.object .decStrong) (Owes h f .decStrong x ⟨owned, strong, weak⟩) never x := by
  have hb : weak + strong < 2 ^ 20 := k.below
  obtain ⟨rfl, n, rfl, hr⟩ := k.of_pos hpos
  simp only [perform, wp_map]
  rcases n with _ | n
  · rw [RefBase.decStrong.spec_last (o := h.object) hr]
    refine decWeak_then (w := weak) rfl (by omega) (fun new world hnew => ?_)
    refine owes_of_kept (by decide) (.lastStrongRef :: new) (by simp [Obj.call, Hooks.object])
      (by simp [Ledger.after, hnew]) (kept_owned (n := 0) (w := weak) rfl (by omega))
  · rw [RefBase.decStrong.spec_more (w := weak + n) (o := h.object) hr (by omega) (by omega)]
    refine owes_of_kept (by decide) [] (by simp [Hooks.object]) (by simp [Ledger.after]) ?_
    exact kept_owned (n := n + 1) (w := weak) rfl (by omega)

/-- A weak reference more or less drops no strong one. -/
theorem no_drop (n : Nat) : 0 = if n = 1 ∧ n = 0 then 1 else 0 := by
  rw [if_neg (by omega)]

/-- The ledger after one more weak reference. -/
theorem Kept.weak_succ {x' : Obj W} (k : Kept f x ⟨owned, strong, weak⟩)
    (hr : x'.refs = counts f (Ledger.strongCount ⟨owned, strong, weak⟩) (weak + strong + 1))
    (hlt : strong + weak + 1 < 2 ^ 20) : Kept f x' ⟨owned, strong, weak + 1⟩ where
  refs := by
    rw [hr, Nat.add_right_comm]
    rfl
  unowned := k.unowned
  below := by
    simp only
    omega

theorem incWeak_owes (k : Kept f x ⟨owned, strong, weak⟩) (hlt : strong + weak + 1 < 2 ^ 20) :
    wp (perform h.object .incWeak) (Owes h f .incWeak x ⟨owned, strong, weak⟩) never x := by
  simp only [perform, wp_map]
  rw [RefBase.incWeak.spec (o := h.object) k.refs (by simp only; omega)]
  exact owes_of_kept (by decide) [] (by simp [Hooks.object]) (no_drop strong)
    (k.weak_succ rfl hlt)

theorem incWeakRequireWeak_owes (k : Kept f x ⟨owned, strong, weak⟩) (hpos : 0 < strong + weak)
    (hlt : strong + weak + 1 < 2 ^ 20) :
    wp (perform h.object .incWeakRequireWeak)
      (Owes h f .incWeakRequireWeak x ⟨owned, strong, weak⟩) never x := by
  simp only [perform, wp_map]
  rw [RefBase.incWeakRequireWeak.spec (o := h.object) k.refs (by simp only; omega)
    (by simp only; omega)]
  exact owes_of_kept (by decide) [] (by simp [Hooks.object]) (no_drop strong)
    (k.weak_succ rfl hlt)

theorem attemptIncWeak_owes (k : Kept f x ⟨owned, strong, weak⟩)
    (hlt : strong + weak + 1 < 2 ^ 20) :
    wp (perform h.object .attemptIncWeak)
      (Owes h f .attemptIncWeak x ⟨owned, strong, weak⟩) never x := by
  simp only [perform]
  rw [RefBase.attemptIncWeak.spec (o := h.object) k.refs (by simp only; omega)]
  split
  · exact owes_of_kept (by decide) [] (by simp [Hooks.object]) (no_drop strong)
      (k.weak_succ rfl hlt)
  · exact owes_of_kept (by decide) [] (by simp) (no_drop strong) k

theorem decWeak_owes (k : Kept f x ⟨owned, strong, weak⟩) (hpos : 0 < weak) :
    wp (perform h.object .decWeak) (Owes h f .decWeak x ⟨owned, strong, weak⟩) never x := by
  obtain ⟨n, rfl⟩ : ∃ n, weak = n + 1 := ⟨weak - 1, by omega⟩
  have hb : n + 1 + strong < 2 ^ 20 := k.below
  have hr : x.refs = counts f (Ledger.strongCount ⟨owned, strong, n⟩) (n + strong + 1) := by
    rw [Nat.add_right_comm]
    exact k.refs
  simp only [perform, wp_map]
  refine decWeak_then hr (by omega) (fun new world hnew => ?_)
  refine owes_of_kept (by decide) new rfl (hnew.trans (no_drop strong)) ?_
  exact ⟨rfl, k.unowned, by simp only [Ledger.after]; omega⟩

/-- `attemptIncStrong` owes the counts, the calls and a result that says when it is refused. -/
theorem owes_attempt {x' : Obj W} {l : Ledger} {b : Bool} (new : List Hook)
    (hnew : x'.calls = x.calls ++ new) (hcount : new.count .lastStrongRef = 0)
    (hb : b = false ↔ Refused h x) (hrefs : b = false → x'.refs = x.refs)
    (k : Kept f x' (l.after .attemptIncStrong b)) : Owes h f .attemptIncStrong x l b x' := by
  refine ⟨⟨rfl, k.tally, ⟨new, hnew, ?_⟩, fun _ => hb, fun _ => hrefs⟩, k⟩
  rw [hcount, if_neg]
  rcases b with _ | _ <;> simp [Ledger.after]
  omega

/-- An object without a strong reference is asked only in weak mode. -/
theorem attempt_weakMode {st : Option Nat} (hm : strongMode f = false)
    (hr : x.refs = counts f st weak) (hst : strongRefs st = 0) :
    Refused h x ↔ (h.onIncStrongAttempted x.world).1 = false := by
  have hz : strongWord st = 0 ∨ strongWord st = INITIAL_STRONG_VALUE := by
    rcases st with _ | n
    · exact .inr rfl
    · have h0 : n = 0 := hst
      subst h0
      exact .inl rfl
  unfold Refused
  rw [hr]
  simp only [counts, hm, Bool.false_eq_true, if_false, hz, true_and]

theorem attemptIncStrong_owes (k : Kept f x ⟨owned, strong, weak⟩)
    (hlt : strong + weak + 1 < 2 ^ 20) :
    wp (perform h.object .attemptIncStrong)
      (Owes h f .attemptIncStrong x ⟨owned, strong, weak⟩) never x := by
  simp only [perform]
  by_cases hpos : 0 < strong
  · obtain ⟨rfl, n, rfl, hr⟩ := k.of_pos hpos
    rw [RefBase.attemptIncStrong.spec_owned (o := h.object) hr (by omega) (by omega)]
    refine owes_attempt [] (by simp [Hooks.object]) rfl ?_ (fun e => absurd e (by simp))
      (kept_owned (n := n + 2) (w := weak) rfl (by omega))
    have h0 : BitVec.ofNat 32 (n + 1) ≠ 0#32 := by
      intro he
      have := (ofNat_inj_small (n := 0) (by omega) (by omega)).mp he
      omega
    have h1 := ofNat_ne_initial (n := n + 1) (by omega)
    simp [Refused, hr, counts, strongWord, h0, h1]
  have h0 : strong = 0 := by omega
  subst h0
  rcases hm : strongMode f with _ | _
  · obtain ⟨st, hst, hr⟩ := k.of_zero
    refine RefBase.attemptIncStrong.spec_asked (o := h.object) hr hst hm (by omega) ?_
    refine ⟨rfl, fun hok => ?_, fun hok => ?_⟩
    · refine owes_attempt [.incStrongAttempted] rfl rfl ?_ (fun e => absurd e (by simp))
        (kept_owned (n := 1) (w := weak) rfl (by omega))
      rw [attempt_weakMode hm hr hst]
      exact ⟨fun e => absurd e (by simp), fun e => absurd (hok.symm.trans e) (by simp)⟩
    · refine decWeak_then (w := weak) rfl (by omega) (fun new world hnew => ?_)
      refine owes_attempt (.incStrongAttempted :: new) (by simp [Obj.call, Hooks.object])
        (by simp [hnew]) ?_ (fun _ => hr.symm) ?_
      · rw [attempt_weakMode hm hr hst]
        exact ⟨fun _ => hok, fun _ => rfl⟩
      · exact ⟨hr.symm.trans k.refs, k.unowned, k.below⟩
  · rcases owned with _ | _
    · have hr : x.refs = counts f none weak := k.refs
      rw [RefBase.attemptIncStrong.spec_first (o := h.object) hr hm (by omega)]
      refine owes_attempt [] (by simp [Hooks.object]) rfl ?_ (fun e => absurd e (by simp))
        (kept_owned (n := 1) (w := weak) rfl (by omega))
      have hne : INITIAL_STRONG_VALUE ≠ 0#32 := by decide
      simp [Refused, hr, counts, strongWord, hm, hne]
    · have hr : x.refs = counts f (some 0) weak := k.refs
      rw [RefBase.attemptIncStrong.spec_dead (o := h.object) hr hm (by omega)]
      refine owes_attempt [] (by simp) rfl ?_ (fun _ => rfl) k
      simp [Refused, hr, counts, strongWord, hm]

/-- Every operation that its users may run does what it owes, with no fault. -/
theorem step_owes (op : Op) {l : Ledger} (k : Kept f x l) (hc : Respects op (x, l)) :
    wp (perform h.object op) (Owes h f op x l) never x := by
  obtain ⟨owned, strong, weak⟩ := l
  cases op with
  | incStrong => exact incStrong_owes k hc.1 (lt_maxCount.mp hc.2)
  | incStrongRequireStrong => exact incStrongRequireStrong_owes k hc.1 (lt_maxCount.mp hc.2)
  | forceIncStrong => exact forceIncStrong_owes k (lt_maxCount.mp hc)
  | attemptIncStrong => exact attemptIncStrong_owes k (lt_maxCount.mp hc)
  | decStrong => exact decStrong_owes k hc
  | incWeak => exact incWeak_owes k (lt_maxCount.mp hc)
  | incWeakRequireWeak => exact incWeakRequireWeak_owes k hc.1 (lt_maxCount.mp hc.2)
  | attemptIncWeak => exact attemptIncWeak_owes k (lt_maxCount.mp hc)
  | decWeak => exact decWeak_owes k hc

end Steps

/-! ## The law -/

theorem start_kept (mode : BitVec 32) (world : W) :
    Kept (OBJECT_LIFETIME_STRONG ||| mode) (start mode world).1 (start mode world).2 where
  refs := rfl
  unowned := fun _ => rfl
  below := by simp [start]

/-- What every operation of a run does: it returns, and leaves a `Good` state. -/
def GoodStep (h : Hooks W) (op : Op) (s : Obj W × Ledger)
    (r : Except Fault (Bool × (Obj W × Ledger))) : Prop :=
  ∃ b s', r = .ok (b, s') ∧ Good h op s b s'

/-- In every run that respects the object, from its construction on, the counts
are the references that its users hold, no check fires, the object is told of
each drop from one strong reference to none, and `attemptIncStrong` is refused
exactly when it must be. -/
theorem the_counts_are_the_references_held (h : Hooks W) (mode : BitVec 32) (world : W)
    (ops : List Op) (hops : Allowed (step h) Respects ops (start mode world)) :
    Tally (start mode world) ∧ Always (step h) (GoodStep h) ops (start mode world) := by
  refine ⟨(start_kept mode world).tally, ?_⟩
  refine always_of_inv (fun s => Kept (OBJECT_LIFETIME_STRONG ||| mode) s.1 s.2) ?_ ?_
    (start_kept mode world) hops
  · rintro op ⟨x, l⟩ k hc
    obtain ⟨b, x', hx, hgood, -⟩ := wp_never_iff.mp (step_owes op k hc)
    refine ⟨b, (x', l.after op b), ?_, hgood⟩
    simp only [step, hx]
  · rintro op ⟨x, l⟩ b s' k hc hs
    obtain ⟨b', x', hx, -, hk⟩ := wp_never_iff.mp (step_owes (h := h) op k hc)
    simp only [step, hx] at hs
    cases hs
    exact hk

/-- A class whose virtual functions do nothing and always agree. -/
def agreeing : Hooks Unit := ⟨id, id, fun w => (true, w), id⟩

theorem the_counts_are_the_references_held_in_a_short_life :
    Tally (start OBJECT_LIFETIME_WEAK ()) ∧
      Always (step agreeing) (GoodStep agreeing)
        [.incStrong, .incWeak, .decStrong, .attemptIncStrong, .decStrong, .decWeak]
        (start OBJECT_LIFETIME_WEAK ()) :=
  the_counts_are_the_references_held agreeing OBJECT_LIFETIME_WEAK () _ (by
    simp only [Allowed, Always, Respects]
    refine ⟨by decide, ?_⟩
    intro b s' hs
    cases hs
    refine ⟨by decide, ?_⟩
    intro b s' hs
    cases hs
    refine ⟨by decide, ?_⟩
    intro b s' hs
    cases hs
    refine ⟨by decide, ?_⟩
    intro b s' hs
    cases hs
    refine ⟨by decide, ?_⟩
    intro b s' hs
    cases hs
    refine ⟨by decide, ?_⟩
    intro b s' hs
    cases hs
    trivial)

end system_binder.ref_laws
