-- What each operation on reference counts does to an object whose counts are
-- known: `strong` strong references, or none yet, and `weak` references in all.
import SystemBinder.RefBase

open prog

namespace system_binder

/-- `mStrong` of an object with `n` strong references, or one that never had any. -/
def strongWord : Option Nat → BitVec 32
  | none => INITIAL_STRONG_VALUE
  | some n => BitVec.ofNat 32 n

/-- The counts of an object, written as its two words. -/
def counts (flags : BitVec 32) (strong : Option Nat) (weak : Nat) : WeakrefImpl :=
  ⟨strongWord strong, BitVec.ofNat 32 weak, flags⟩

/-- The number of strong references. -/
def strongRefs (strong : Option Nat) : Nat := strong.getD 0

/-! ## The words -/

theorem toInt_ofNat_small {n : Nat} (h : n < 2 ^ 31) : (BitVec.ofNat 32 n).toInt = n := by
  rw [BitVec.toInt_eq_toNat_cond, BitVec.toNat_ofNat, Nat.mod_eq_of_lt (by omega)]
  rw [if_pos (by omega)]

theorem ofNat_inj_small {m n : Nat} (hm : m < 2 ^ 32) (hn : n < 2 ^ 32) :
    BitVec.ofNat 32 m = BitVec.ofNat 32 n ↔ m = n := by
  constructor
  · intro h
    have := congrArg BitVec.toNat h
    simpa only [BitVec.toNat_ofNat, Nat.mod_eq_of_lt hm, Nat.mod_eq_of_lt hn] using this
  · intro h
    rw [h]

theorem initial_eq : INITIAL_STRONG_VALUE = BitVec.ofNat 32 (2 ^ 28) := by decide

theorem ofNat_ne_initial {n : Nat} (h : n < 2 ^ 28) :
    BitVec.ofNat 32 n ≠ INITIAL_STRONG_VALUE := by
  rw [initial_eq]
  intro he
  have := (ofNat_inj_small (by omega) (by omega)).mp he
  omega

theorem ofNat_add_one (n : Nat) : BitVec.ofNat 32 n + 1 = BitVec.ofNat 32 (n + 1) :=
  BitVec.ofNat_add_ofNat n 1

theorem ofNat_succ_sub_one (n : Nat) : BitVec.ofNat 32 (n + 1) - 1 = BitVec.ofNat 32 n := by
  rw [← ofNat_add_one]
  exact BitVec.add_sub_cancel _ _

theorem initial_add_one_sub :
    INITIAL_STRONG_VALUE + 1 - INITIAL_STRONG_VALUE = BitVec.ofNat 32 1 := by decide

/-- A count of at most `MAX_COUNT` has none of the bits above it. -/
theorem ofNat_and_above {n : Nat} (h : n < 2 ^ 20) (m : BitVec 32)
    (hm : ∀ i, i < 20 → m.getLsbD i = false) : BitVec.ofNat 32 n &&& m = 0 := by
  apply BitVec.eq_of_getLsbD_eq
  intro i hi
  rw [BitVec.getLsbD_and]
  by_cases h20 : i < 20
  · rw [hm i h20, Bool.and_false]
    simp
  · have hb : n.testBit i = false :=
      Nat.testBit_lt_two_pow (lt_of_lt_of_le h (Nat.pow_le_pow_right (by omega) (by omega)))
    rw [BitVec.getLsbD_ofNat, hb, Bool.and_false, Bool.false_and]
    simp

theorem badWeak_ofNat {n : Nat} (h0 : 0 < n) (h : n < 2 ^ 20) :
    badWeak (BitVec.ofNat 32 n) = false := by
  have hne : BitVec.ofNat 32 n ≠ 0 := by
    intro he
    have := (ofNat_inj_small (n := 0) (by omega) (by omega)).mp he
    omega
  have hand := ofNat_and_above h (~~~MAX_COUNT) (by decide)
  unfold badWeak
  rw [hand]
  simpa using hne

theorem badStrong_ofNat {n : Nat} (h0 : 0 < n) (h : n < 2 ^ 20) :
    badStrong (BitVec.ofNat 32 n) = false := by
  have hne : BitVec.ofNat 32 n ≠ 0 := by
    intro he
    have := (ofNat_inj_small (n := 0) (by omega) (by omega)).mp he
    omega
  have hand := ofNat_and_above h (~~~(MAX_COUNT ||| INITIAL_STRONG_VALUE)) (by decide)
  unfold badStrong
  rw [hand]
  simpa using hne

theorem and_eq_of_and_not_eq_zero {c m : BitVec 32} (h : c &&& ~~~m = 0#32) : c &&& m = c := by
  calc c &&& m = c &&& (m ||| ~~~m) := by rw [BitVec.and_or_distrib_left, h, BitVec.or_zero]
    _ = c := by rw [BitVec.or_not_self, BitVec.and_allOnes]

/-- A weak count above `MAX_COUNT` is taken for damage. -/
theorem badWeak_above {n : Nat} (h : 2 ^ 20 ≤ n) (hn : n < 2 ^ 32) :
    badWeak (BitVec.ofNat 32 n) = true := by
  unfold badWeak
  rw [Bool.or_eq_true, bne_iff_ne]
  refine .inr fun hzero => ?_
  have hless := congrArg BitVec.toNat (and_eq_of_and_not_eq_zero hzero)
  rw [BitVec.toNat_and, BitVec.toNat_ofNat, Nat.mod_eq_of_lt hn] at hless
  have hle : n &&& MAX_COUNT.toNat ≤ MAX_COUNT.toNat := Nat.and_le_right
  have hmax : MAX_COUNT.toNat < 2 ^ 20 := by decide
  omega

/-! ## The specs -/

namespace RefBase

variable {σ : Type} {o : RefBase σ} {s : σ} {E : Fault → Prop}
variable {f : BitVec 32} {c : Option Nat} {n w : Nat}

theorem wp_load {Q : WeakrefImpl → σ → Prop} : wp o.load Q E s ↔ Q (o.refs s) s := Iff.rfl

theorem wp_fetchAddStrong (d : BitVec 32) {Q : BitVec 32 → σ → Prop} :
    wp (o.fetchAddStrong d) Q E s ↔ Q (o.refs s).mStrong
      (o.putRefs { o.refs s with mStrong := (o.refs s).mStrong + d } s) := Iff.rfl

theorem wp_fetchSubStrong (d : BitVec 32) {Q : BitVec 32 → σ → Prop} :
    wp (o.fetchSubStrong d) Q E s ↔ Q (o.refs s).mStrong
      (o.putRefs { o.refs s with mStrong := (o.refs s).mStrong - d } s) := Iff.rfl

theorem wp_fetchAddWeak (d : BitVec 32) {Q : BitVec 32 → σ → Prop} :
    wp (o.fetchAddWeak d) Q E s ↔ Q (o.refs s).mWeak
      (o.putRefs { o.refs s with mWeak := (o.refs s).mWeak + d } s) := Iff.rfl

theorem wp_fetchSubWeak (d : BitVec 32) {Q : BitVec 32 → σ → Prop} :
    wp (o.fetchSubWeak d) Q E s ↔ Q (o.refs s).mWeak
      (o.putRefs { o.refs s with mWeak := (o.refs s).mWeak - d } s) := Iff.rfl

/-- One more weak reference. -/
theorem incWeak.spec {Q : Unit → σ → Prop} (hr : o.refs s = counts f c w) (hw : w < 2 ^ 31) :
    wp o.incWeak Q E s ↔ Q () (o.putRefs (counts f c (w + 1)) s) := by
  have h0 : ¬(BitVec.ofNat 32 w).toInt < 0 := by
    rw [toInt_ofNat_small (by omega)]
    omega
  unfold incWeak
  simp only [wp_bind, wp_fetchAddWeak, hr, counts, ofNat_add_one, if_neg h0, wp_pure]

theorem incWeakRequireWeak.spec {Q : Unit → σ → Prop} (hr : o.refs s = counts f c w)
    (h0 : 0 < w) (hw : w < 2 ^ 20) :
    wp o.incWeakRequireWeak Q E s ↔ Q () (o.putRefs (counts f c (w + 1)) s) := by
  have h1 : ¬(BitVec.ofNat 32 w).toInt ≤ 0 := by
    rw [toInt_ofNat_small (by omega)]
    omega
  unfold incWeakRequireWeak
  simp only [wp_bind, wp_fetchAddWeak, hr, counts, ofNat_add_one, if_neg h1, wp_pure]

theorem attemptIncWeak.spec {Q : Bool → σ → Prop} (hr : o.refs s = counts f c w)
    (hw : w < 2 ^ 20) :
    wp o.attemptIncWeak Q E s ↔
      if 0 < w then Q true (o.putRefs (counts f c (w + 1)) s) else Q false s := by
  have h0 : ¬(BitVec.ofNat 32 w).toInt < 0 := by
    rw [toInt_ofNat_small (by omega)]
    omega
  have h1 : 0 < (BitVec.ofNat 32 w).toInt ↔ 0 < w := by
    rw [toInt_ofNat_small (by omega)]
    omega
  unfold attemptIncWeak
  simp only [wp_bind, wp_load, hr, counts, if_neg h0, h1]
  split
  · simp only [wp_bind, wp_fetchAddWeak, hr, counts, ofNat_add_one, wp_pure]
  · simp only [wp_pure]

/-- One reference less. The last one tells an object in weak mode. -/
theorem decWeak.spec {Q : Unit → σ → Prop} (hr : o.refs s = counts f c (w + 1))
    (hw : w + 1 < 2 ^ 20) :
    wp o.decWeak Q E s ↔
      if w = 0 ∧ strongMode f = false
      then wp o.onLastWeakRef Q E (o.putRefs (counts f c w) s)
      else Q () (o.putRefs (counts f c w) s) := by
  have hbad := badWeak_ofNat (n := w + 1) (by omega) hw
  have h1 : BitVec.ofNat 32 (w + 1) = 1 ↔ w = 0 := by
    rw [show (1 : BitVec 32) = BitVec.ofNat 32 1 from rfl, ofNat_inj_small (by omega) (by omega)]
    omega
  unfold decWeak
  simp only [wp_bind, wp_fetchSubWeak, hr, counts, ofNat_succ_sub_one, hbad, Bool.false_eq_true,
    if_false, ne_eq, h1, ite_not]
  by_cases hw0 : w = 0
  · simp only [hw0, if_true, true_and, wp_bind, wp_load, o.refs_put]
    rcases hm : strongMode f with _ | _
    · simp [delete]
    · simp only [if_true, deleteImpl, ite_self, wp_pure, Bool.true_eq_false, if_false]
  · simp only [hw0, if_false, false_and, wp_pure]

theorem incStrong.spec_owned {Q : Unit → σ → Prop} (hr : o.refs s = counts f (some (n + 1)) w)
    (hn : n + 1 < 2 ^ 28) (hw : w < 2 ^ 31) :
    wp o.incStrong Q E s ↔ Q () (o.putRefs (counts f (some (n + 2)) (w + 1)) s) := by
  have h0 : ¬(BitVec.ofNat 32 (n + 1)).toInt ≤ 0 := by
    rw [toInt_ofNat_small (by omega)]
    omega
  have h1 := ofNat_ne_initial (n := n + 1) (by omega)
  unfold incStrong
  simp only [wp_bind, incWeak.spec hr (by omega : w < 2 ^ 31), wp_fetchAddStrong, o.refs_put, o.put_put, counts,
    strongWord, ofNat_add_one, if_neg h0, if_pos h1, wp_pure]

/-- The first strong reference removes the initial value, then tells the object. -/
theorem incStrong.spec_first {Q : Unit → σ → Prop} (hr : o.refs s = counts f none w)
    (hw : w < 2 ^ 31) :
    wp o.incStrong Q E s ↔
      wp o.onFirstRef Q E (o.putRefs (counts f (some 1) (w + 1)) s) := by
  have h0 : ¬INITIAL_STRONG_VALUE.toInt ≤ 0 := by decide
  have h1 : ¬(INITIAL_STRONG_VALUE + 1).toInt ≤ INITIAL_STRONG_VALUE.toInt := by decide
  unfold incStrong
  simp only [wp_bind, incWeak.spec hr (by omega : w < 2 ^ 31), wp_fetchAddStrong, wp_fetchSubStrong, o.refs_put,
    o.put_put, counts, strongWord, if_neg h0, ne_eq, not_true_eq_false, if_false,
    if_neg h1, initial_add_one_sub]

theorem incStrongRequireStrong.spec {Q : Unit → σ → Prop}
    (hr : o.refs s = counts f (some (n + 1)) w) (hn : n + 1 < 2 ^ 20) (hw : w < 2 ^ 20) :
    wp o.incStrongRequireStrong Q E s ↔
      Q () (o.putRefs (counts f (some (n + 2)) (w + 1)) s) := by
  have h0 : ¬((BitVec.ofNat 32 (n + 1)).toInt ≤ 0 ∨
      BitVec.ofNat 32 (n + 1) = INITIAL_STRONG_VALUE) := by
    rw [toInt_ofNat_small (by omega)]
    have := ofNat_ne_initial (n := n + 1) (by omega)
    rintro (h | h)
    · omega
    · exact this h
  unfold incStrongRequireStrong
  simp only [wp_bind, incWeak.spec hr (by omega : w < 2 ^ 31), wp_fetchAddStrong, o.refs_put, o.put_put, counts,
    strongWord, ofNat_add_one, if_neg h0, wp_pure]

theorem forceIncStrong.spec_owned {Q : Unit → σ → Prop}
    (hr : o.refs s = counts f (some (n + 1)) w) (hn : n + 1 < 2 ^ 20) (hw : w < 2 ^ 20) :
    wp o.forceIncStrong Q E s ↔ Q () (o.putRefs (counts f (some (n + 2)) (w + 1)) s) := by
  have h0 : ¬(BitVec.ofNat 32 (n + 1)).toInt < 0 := by
    rw [toInt_ofNat_small (by omega)]
    omega
  have h1 := ofNat_ne_initial (n := n + 1) (by omega)
  have h2 : BitVec.ofNat 32 (n + 1) ≠ 0 := by
    intro he
    have := (ofNat_inj_small (n := 0) (by omega) (by omega)).mp he
    omega
  unfold forceIncStrong
  simp only [wp_bind, incWeak.spec hr (by omega : w < 2 ^ 31), wp_fetchAddStrong, o.refs_put, o.put_put, counts,
    strongWord, ofNat_add_one, if_neg h0, if_neg h1, if_neg h2, wp_pure]

/-- A forced reference on an object without one tells the object again. -/
theorem forceIncStrong.spec_first {Q : Unit → σ → Prop} (hr : o.refs s = counts f c w)
    (hst : strongRefs c = 0) (hw : w < 2 ^ 20) :
    wp o.forceIncStrong Q E s ↔
      wp o.onFirstRef Q E (o.putRefs (counts f (some 1) (w + 1)) s) := by
  have hi : ¬INITIAL_STRONG_VALUE.toInt < 0 := by decide
  have h0 : ¬(BitVec.ofNat 32 0).toInt < 0 := by decide
  have h1 := ofNat_ne_initial (n := 0) (by omega)
  unfold forceIncStrong
  rcases c with _ | k
  · simp only [wp_bind, incWeak.spec hr (by omega : w < 2 ^ 31), wp_fetchAddStrong, wp_fetchSubStrong, o.refs_put,
      o.put_put, counts, strongWord, if_neg hi, if_true, initial_add_one_sub]
  · have hk : k = 0 := hst
    subst hk
    simp only [wp_bind, incWeak.spec hr (by omega : w < 2 ^ 31), wp_fetchAddStrong, o.refs_put, o.put_put, counts,
      strongWord, ofNat_add_one, if_neg h0, if_neg h1]
    exact iff_of_eq (congrArg (fun m => wp m Q E _) (if_pos rfl))

theorem decStrong.spec_more {Q : Unit → σ → Prop}
    (hr : o.refs s = counts f (some (n + 2)) (w + 2)) (hn : n + 2 < 2 ^ 20)
    (hw : w + 2 < 2 ^ 20) :
    wp o.decStrong Q E s ↔ Q () (o.putRefs (counts f (some (n + 1)) (w + 1)) s) := by
  have hbad := badStrong_ofNat (n := n + 2) (by omega) hn
  have h1 : BitVec.ofNat 32 (n + 2) ≠ 1 := by
    intro he
    have := (ofNat_inj_small (n := 1) (by omega) (by omega)).mp he
    omega
  have hr' : o.refs (o.putRefs (counts f (some (n + 1)) (w + 2)) s) =
      counts f (some (n + 1)) (w + 1 + 1) := o.refs_put _ _
  unfold decStrong
  have hdec := decWeak.spec (Q := Q) (E := E) hr' (by omega)
  rw [o.put_put, if_neg (by omega)] at hdec
  simp only [counts, strongWord] at hdec hbad
  simp only [wp_bind, wp_fetchSubStrong, hr, counts, strongWord, wp_ite, hbad, h1,
    Bool.false_eq_true, false_implies, not_false_eq_true, forall_const, true_and]
  rw [show BitVec.ofNat 32 (n + 2) - 1 = BitVec.ofNat 32 (n + 1) from ofNat_succ_sub_one _]
  exact hdec

/-- The last strong reference tells the object, then drops its weak reference. -/
theorem decStrong.spec_last {Q : Unit → σ → Prop} (hr : o.refs s = counts f (some 1) w) :
    wp o.decStrong Q E s ↔
      wp o.onLastStrongRef (fun _ => wp o.decWeak Q E) E (o.putRefs (counts f (some 0) w) s) := by
  have hbad : badStrong (BitVec.ofNat 32 1) = false := by decide
  have h1 : BitVec.ofNat 32 1 = 1 := rfl
  have h2 : BitVec.ofNat 32 1 - 1 = BitVec.ofNat 32 0 := rfl
  unfold decStrong
  simp only [wp_bind, wp_fetchSubStrong, hr, counts, strongWord, hbad, Bool.false_eq_true,
    if_false, if_pos h1, h2, delete, pure_bind, ite_self]
  exact Iff.rfl

/-! ## Promoting a weak reference -/

theorem finishAttempt.spec {Q : Bool → σ → Prop} (hst : strongRefs c < 2 ^ 28)
    (hr : o.refs s =
      { counts f c w with mStrong := (counts f c w).mStrong + 1 }) :
    wp (o.finishAttempt (strongWord c)) Q E s ↔
      Q true (o.putRefs (counts f (some (strongRefs c + 1)) w) s) := by
  unfold finishAttempt
  rcases c with _ | n
  · simp only [strongWord, if_true, wp_bind, wp_fetchSubStrong, hr, counts, initial_add_one_sub,
      wp_pure, strongRefs, Option.getD_none]
  · have hn := ofNat_ne_initial (n := n) (by simp only [strongRefs, Option.getD_some] at hst; omega)
    have hs : o.putRefs (counts f (some (n + 1)) w) s = s := by
      rw [show counts f (some (n + 1)) w = o.refs s by
        rw [hr]; simp only [counts, strongWord, ofNat_add_one]]
      exact o.put_refs s
    simp only [strongWord, wp_ite, hn, false_implies, not_false_eq_true, forall_const, true_and,
      wp_pure, strongRefs, Option.getD_some, hs]

theorem attemptIncStrong.spec_owned {Q : Bool → σ → Prop}
    (hr : o.refs s = counts f (some (n + 1)) w) (hn : n + 1 < 2 ^ 28) (hw : w < 2 ^ 31) :
    wp o.attemptIncStrong Q E s ↔ Q true (o.putRefs (counts f (some (n + 2)) (w + 1)) s) := by
  have hpos : ¬(BitVec.ofNat 32 (n + 1)).toInt < 0 ∧ 0 < (BitVec.ofNat 32 (n + 1)).toInt := by
    rw [toInt_ofNat_small (by omega)]
    omega
  have h1 := ofNat_ne_initial (n := n + 1) (by omega)
  have hfin := finishAttempt.spec (o := o) (E := E) (Q := Q) (c := some (n + 1)) (w := w + 1)
    (f := f) (s := o.putRefs { counts f (some (n + 1)) (w + 1) with
      mStrong := (counts f (some (n + 1)) (w + 1)).mStrong + 1 } s) hn (o.refs_put _ _)
  unfold attemptIncStrong
  simp only [wp_bind, incWeak.spec hr (by omega : w < 2 ^ 31), wp_load, wp_ite, wp_fetchAddStrong, o.refs_put,
    o.put_put, counts, strongWord, hpos, h1, ne_eq, not_false_eq_true, and_self, false_implies,
    forall_const, not_true_eq_false, and_true, true_and] at hfin ⊢
  exact hfin

/-- In strong mode an object that never was owned can still be promoted. -/
theorem attemptIncStrong.spec_first {Q : Bool → σ → Prop} (hr : o.refs s = counts f none w)
    (hm : strongMode f = true) (hw : w < 2 ^ 20) :
    wp o.attemptIncStrong Q E s ↔ Q true (o.putRefs (counts f (some 1) (w + 1)) s) := by
  have hpos : ¬INITIAL_STRONG_VALUE.toInt < 0 ∧ ¬INITIAL_STRONG_VALUE.toInt ≤ 0 := by decide
  have hfin := finishAttempt.spec (o := o) (E := E) (Q := Q) (c := none) (w := w + 1) (f := f)
    (s := o.putRefs { counts f none (w + 1) with
      mStrong := (counts f none (w + 1)).mStrong + 1 } s) (by decide) (o.refs_put _ _)
  unfold attemptIncStrong
  simp only [wp_bind, incWeak.spec hr (by omega : w < 2 ^ 31), wp_load, wp_ite, wp_fetchAddStrong, o.refs_put,
    o.put_put, counts, strongWord, hpos, hm, ne_eq, not_true_eq_false,
    and_false, false_implies, not_false_eq_true, forall_const, and_true, true_and] at hfin ⊢
  exact hfin

/-- In strong mode an object that lost its last strong reference is refused. -/
theorem attemptIncStrong.spec_dead {Q : Bool → σ → Prop} (hr : o.refs s = counts f (some 0) w)
    (hm : strongMode f = true) (hw : w + 1 < 2 ^ 20) :
    wp o.attemptIncStrong Q E s ↔ Q false s := by
  have h0 : (BitVec.ofNat 32 0).toInt = 0 := by decide
  have hr' : o.refs (o.putRefs (counts f (some 0) (w + 1)) s) = counts f (some 0) (w + 1) :=
    o.refs_put _ _
  have hdec := decWeak.spec (Q := fun _ => Q false) (E := E) hr' hw
  have hs : o.putRefs (counts f (some 0) w) s = s := by
    rw [← hr]
    exact o.put_refs s
  simp only [hm, o.put_put, hs, Bool.true_eq_false, and_false, if_false] at hdec
  unfold attemptIncStrong
  simp only [wp_bind, incWeak.spec hr (by omega : w < 2 ^ 31), wp_load, wp_ite, o.refs_put,
    counts, strongWord, h0, hm, lt_irrefl, false_and, le_refl,
    false_implies, not_false_eq_true, forall_const, and_true, true_and,
    not_true_eq_false] at hdec ⊢
  exact hdec

/-- In weak mode the object itself decides. -/
theorem attemptIncStrong.spec_asked {Q : Bool → σ → Prop} (hr : o.refs s = counts f c w)
    (hst : strongRefs c = 0) (hm : strongMode f = false) (hw : w < 2 ^ 31)
    (hask : wp o.onIncStrongAttempted (fun ok t => o.refs t = counts f c (w + 1) ∧
      (ok = true → Q true (o.putRefs (counts f (some 1) (w + 1)) t)) ∧
      (ok = false → wp o.decWeak (fun _ => Q false) E t)) E
      (o.putRefs (counts f c (w + 1)) s)) :
    wp o.attemptIncStrong Q E s := by
  have hword : ¬(strongWord c).toInt < 0 ∧
      ¬(0 < (strongWord c).toInt ∧ strongWord c ≠ INITIAL_STRONG_VALUE) ∧
      ¬(strongWord c ≠ 0 ∧ strongWord c ≠ INITIAL_STRONG_VALUE) := by
    rcases c with _ | n
    · decide
    · have hn : n = 0 := hst
      subst hn
      decide
  obtain ⟨hneg, hown, hzero⟩ := hword
  unfold attemptIncStrong
  simp only [wp_bind, incWeak.spec hr (by omega : w < 2 ^ 31), wp_load, wp_ite, o.refs_put,
    counts, hneg, hown, hm, false_implies, not_false_eq_true,
    forall_const, true_and, wp_fetchAddStrong, Bool.false_eq_true] at hask ⊢
  refine wp_imp hask ?_
  rintro ok t ⟨ht, hyes, hno⟩
  refine ⟨fun hok => ?_, fun hok => ?_⟩
  · have hfin := finishAttempt.spec (o := o) (E := E) (Q := Q) (c := c) (w := w + 1) (f := f)
      (s := o.putRefs { counts f c (w + 1) with
        mStrong := (counts f c (w + 1)).mStrong + 1 } t) (by omega) (o.refs_put _ _)
    simp only [counts, o.put_put, hst] at hfin
    simp only [ht]
    exact ⟨fun h => absurd h hzero, fun _ => hfin.mpr (hyes hok)⟩
  · exact hno (by simpa using hok)

end RefBase

end system_binder
