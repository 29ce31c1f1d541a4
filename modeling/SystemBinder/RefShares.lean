-- The references of one holder on an object that others hold too. The two counts of the object are
-- what the holder and all others have on it together, whatever the others do in between, and each
-- operation of the holder moves its share alone.
import SystemBinder.RefCounts

open prog

namespace system_binder

/-- A run may stop at any check. -/
abbrev mayStop : Fault → Prop := fun _ => True

/-- The counts are so many references. Above `MAX_COUNT` the strong ones are not counted any more,
but then none comes back. -/
structure Tallies (refs : WeakrefImpl) (strong weak : Nat) : Prop where
  mWeak : refs.mWeak = BitVec.ofNat 32 (strong + weak)
  below : strong + weak ≤ 2 ^ 31
  mStrong : strong + weak < 2 ^ 20 → refs.mStrong = BitVec.ofNat 32 strong ∨
    (strong = 0 ∧ refs.mStrong = INITIAL_STRONG_VALUE)

namespace Tallies

variable {refs : WeakrefImpl} {strong weak : Nat}

theorem incWeak (h : Tallies refs strong weak) (hroom : strong + weak < 2 ^ 31) :
    Tallies { refs with mWeak := refs.mWeak + 1 } strong (weak + 1) where
  mWeak := by
    dsimp only
    rw [h.mWeak, ofNat_add_one, Nat.add_assoc]
  below := hroom
  mStrong := fun hfew => h.mStrong (by omega)

theorem decWeak (h : Tallies refs strong (weak + 1)) (hfew : strong + weak + 1 < 2 ^ 20) :
    Tallies { refs with mWeak := refs.mWeak - 1 } strong weak where
  mWeak := by
    dsimp only
    rw [h.mWeak, ← Nat.add_assoc, ofNat_succ_sub_one]
  below := by omega
  mStrong := fun _ => h.mStrong hfew

/-- A weak reference becomes a strong one. -/
theorem incStrong (h : Tallies refs strong (weak + 1))
    (hnext : refs.mStrong ≠ INITIAL_STRONG_VALUE) :
    Tallies { refs with mStrong := refs.mStrong + 1 } (strong + 1) weak where
  mWeak := by
    rw [Nat.succ_add_eq_add_succ]
    exact h.mWeak
  below := by
    have hbelow := h.below
    omega
  mStrong := by
    intro hfew
    rcases h.mStrong (by omega) with hcount | ⟨-, hinitial⟩
    · left
      dsimp only
      rw [hcount, ofNat_add_one]
    · exact absurd hinitial hnext

/-- The first strong reference removes the initial value. -/
theorem incStrong_first (h : Tallies refs strong (weak + 1))
    (hfirst : refs.mStrong = INITIAL_STRONG_VALUE) :
    Tallies { refs with mStrong := refs.mStrong + 1 - INITIAL_STRONG_VALUE } (strong + 1) weak where
  mWeak := by
    rw [Nat.succ_add_eq_add_succ]
    exact h.mWeak
  below := by
    have hbelow := h.below
    omega
  mStrong := by
    intro hfew
    rcases h.mStrong (by omega) with hcount | ⟨rfl, -⟩
    · exact absurd (hcount.symm.trans hfirst) (ofNat_ne_initial (by omega))
    · left
      dsimp only
      rw [hfirst]
      exact initial_add_one_sub

/-- A strong reference becomes a weak one. -/
theorem decStrong (h : Tallies refs (strong + 1) weak) :
    Tallies { refs with mStrong := refs.mStrong - 1 } strong (weak + 1) where
  mWeak := by
    rw [← Nat.succ_add_eq_add_succ]
    exact h.mWeak
  below := by
    have hbelow := h.below
    omega
  mStrong := by
    intro hfew
    rcases h.mStrong (by omega) with hcount | ⟨hnone, -⟩
    · left
      dsimp only
      rw [hcount, ofNat_succ_sub_one]
    · cases hnone

end Tallies

/-- The references that others have on an object. -/
structure Shares where
  strong : Nat
  weak : Nat
deriving DecidableEq, Repr

/-- The counts of the object are the references of the others and of the holder, who has `strong`
and `weak`. -/
def RefBase.Holds {σ : Type} (o : RefBase σ) (others : σ → Shares) (strong weak : Nat) (s : σ) :
    Prop := Tallies (o.refs s) ((others s).strong + strong) ((others s).weak + weak)

/-- What others do: their references go with the counts, and those of the holder stay. -/
def RefBase.Books {σ α : Type} (o : RefBase σ) (others : σ → Shares) (m : Prog σ Fault α) : Prop :=
  ∀ strong weak s, o.Holds others strong weak s →
    wp m (fun _ => o.Holds others strong weak) mayStop s

/-- An object whose virtual functions keep the books. -/
structure Shared (σ : Type) where
  object : RefBase σ
  others : σ → Shares
  others_put : ∀ r s, others (object.putRefs r s) = others s
  onFirstRef : object.Books others object.onFirstRef
  onLastStrongRef : object.Books others object.onLastStrongRef
  onIncStrongAttempted : object.Books others object.onIncStrongAttempted
  onLastWeakRef : object.Books others object.onLastWeakRef

namespace Shared

variable {σ : Type} (o : Shared σ)

/-- The holder has so many references on the object. -/
abbrev Holds (strong weak : Nat) (s : σ) : Prop := o.object.Holds o.others strong weak s

/-- What others do with the object. -/
abbrev Books {α : Type} (m : Prog σ Fault α) : Prop := o.object.Books o.others m

variable {o} {s : σ} {strong weak : Nat}

theorem holds_put {r : WeakrefImpl} : o.Holds strong weak (o.object.putRefs r s) ↔
    Tallies r ((o.others s).strong + strong) ((o.others s).weak + weak) := by
  unfold Holds RefBase.Holds
  rw [o.object.refs_put, o.others_put]

/-! ## What an operation does to the share -/

theorem incWeak.spec (h : o.Holds strong weak s) :
    wp o.object.incWeak (fun _ => o.Holds strong (weak + 1)) mayStop s := by
  unfold RefBase.incWeak
  rw [wp_bind, RefBase.wp_fetchAddWeak, wp_ite]
  refine ⟨fun _ => trivial, fun hnonneg => ?_⟩
  rw [wp_pure, holds_put]
  apply Tallies.incWeak h
  by_contra hfull
  have hbelow := h.below
  have hword := h.mWeak
  rw [le_antisymm hbelow (not_lt.mp hfull)] at hword
  rw [hword] at hnonneg
  exact hnonneg (by decide)

theorem decWeak.spec (h : o.Holds strong (weak + 1) s) :
    wp o.object.decWeak (fun _ => o.Holds strong weak) mayStop s := by
  unfold RefBase.decWeak
  rw [wp_bind, RefBase.wp_fetchSubWeak, wp_ite]
  refine ⟨fun _ => trivial, fun hgood => ?_⟩
  have hless : o.Holds strong weak (o.object.putRefs
      { o.object.refs s with mWeak := (o.object.refs s).mWeak - 1 } s) := by
    rw [holds_put]
    apply Tallies.decWeak h
    -- above `MAX_COUNT` the check would have stopped the run
    have hbelow := h.below
    rw [h.mWeak] at hgood
    exact not_le.mp fun hmany => hgood (badWeak_above hmany (by omega))
  rw [wp_ite]
  refine ⟨fun _ => hless, fun _ => ?_⟩
  rw [wp_bind, RefBase.wp_load, wp_ite, wp_ite]
  refine ⟨fun _ => ⟨fun _ => hless, fun _ => hless⟩, fun _ => ?_⟩
  rw [wp_bind]
  exact o.onLastWeakRef strong weak _ hless

theorem incStrong.spec (h : o.Holds strong weak s) :
    wp o.object.incStrong (fun _ => o.Holds (strong + 1) weak) mayStop s := by
  unfold RefBase.incStrong
  rw [wp_bind]
  apply wp_imp (incWeak.spec h)
  intro _ t ht
  rw [wp_bind, RefBase.wp_fetchAddStrong, wp_ite, wp_ite]
  refine ⟨fun _ => trivial, fun _ => ⟨fun hnext => ?_, fun hfirst => ?_⟩⟩
  · rw [wp_pure, holds_put]
    exact Tallies.incStrong ht hnext
  · rw [wp_bind, RefBase.wp_fetchSubStrong, wp_ite, o.object.refs_put, o.object.put_put]
    refine ⟨fun _ => trivial, fun _ => o.onFirstRef (strong + 1) weak _ (holds_put.mpr ?_)⟩
    exact Tallies.incStrong_first ht (not_not.mp hfirst)

theorem decStrong.spec (h : o.Holds (strong + 1) weak s) :
    wp o.object.decStrong (fun _ => o.Holds strong weak) mayStop s := by
  have hless : o.Holds strong (weak + 1) (o.object.putRefs
      { o.object.refs s with mStrong := (o.object.refs s).mStrong - 1 } s) := by
    rw [holds_put]
    exact Tallies.decStrong h
  unfold RefBase.decStrong
  rw [wp_bind, RefBase.wp_fetchSubStrong, wp_ite, wp_ite]
  refine ⟨fun _ => trivial, fun _ => ⟨fun _ => ?_, fun _ => decWeak.spec hless⟩⟩
  rw [wp_bind]
  apply wp_imp (o.onLastStrongRef strong (weak + 1) _ hless)
  intro _ t ht
  rw [wp_bind, RefBase.wp_load, wp_ite, wp_bind]
  exact ⟨fun _ => decWeak.spec ht, fun _ => decWeak.spec ht⟩

/-- The end of an attempt that was granted: the weak reference becomes a strong one. -/
theorem finishAttempt.spec (h : o.Holds strong (weak + 1) s) :
    wp (o.object.finishAttempt (o.object.refs s).mStrong)
      (fun ok => o.Holds (if ok then strong + 1 else strong) weak) mayStop
      (o.object.putRefs { o.object.refs s with mStrong := (o.object.refs s).mStrong + 1 } s) := by
  unfold RefBase.finishAttempt
  rw [wp_ite]
  refine ⟨fun hfirst => ?_, fun hnext => ?_⟩
  · rw [wp_bind, RefBase.wp_fetchSubStrong, wp_pure, o.object.refs_put, o.object.put_put, holds_put]
    exact Tallies.incStrong_first h hfirst
  · rw [wp_pure, holds_put]
    exact Tallies.incStrong h hnext

theorem attemptIncStrong.spec (h : o.Holds strong weak s) :
    wp o.object.attemptIncStrong (fun ok => o.Holds (if ok then strong + 1 else strong) weak)
      mayStop s := by
  unfold RefBase.attemptIncStrong
  rw [wp_bind]
  apply wp_imp (incWeak.spec h)
  intro _ t ht
  rw [wp_bind, RefBase.wp_load, wp_ite, wp_ite, wp_ite]
  refine ⟨fun _ => trivial, fun _ => ⟨fun _ => ?_, fun _ => ⟨fun _ => ?_, fun _ => ?_⟩⟩⟩
  · rw [wp_bind, RefBase.wp_fetchAddStrong]
    exact finishAttempt.spec ht
  · rw [wp_ite, wp_bind, wp_bind, RefBase.wp_fetchAddStrong]
    exact ⟨fun _ => wp_imp (decWeak.spec ht) fun _ _ hu => hu, fun _ => finishAttempt.spec ht⟩
  · rw [wp_bind]
    apply wp_imp (o.onIncStrongAttempted strong (weak + 1) _ ht)
    intro ok u hu
    rw [wp_ite, wp_bind, wp_bind, RefBase.wp_fetchAddStrong, wp_ite, wp_bind]
    refine ⟨fun _ => ⟨fun hmore => ?_, fun _ => finishAttempt.spec hu⟩,
      fun _ => wp_imp (decWeak.spec hu) fun _ _ hv => hv⟩
    -- another holder was faster
    have hgained : o.Holds (strong + 1) weak (o.object.putRefs
        { o.object.refs u with mStrong := (o.object.refs u).mStrong + 1 } u) := by
      rw [holds_put]
      exact Tallies.incStrong hu hmore.2
    apply wp_imp (o.onLastStrongRef (strong + 1) weak _ hgained)
    intro _ v hv
    unfold RefBase.finishAttempt
    rw [wp_ite]
    exact ⟨fun hfirst => absurd hfirst hmore.2, fun _ => hv⟩

end Shared

end system_binder
