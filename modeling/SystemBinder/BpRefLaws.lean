-- The references that a BpRefBase has on its remote binder: from its constructor to its
-- destructor they balance, whichever way it comes to be owned. They are read off the counts of the
-- remote binder, where others have references too.
import SystemBinder.BpRefBase
import SystemBinder.RefLaws
import SystemBinder.RefShares

open prog

namespace system_binder.BpRefBase

open ref_laws (Ledger)

variable {W α : Type} {this : BpRefBase W} {remote : Shared W}

/-! ## What reaches the remote binder -/

theorem onRemote.spec {m : Prog W Fault α} {P : α → W → Prop} {Q : α → BpRefBase W → Prop}
    (hm : wp m P mayStop this.world) (hQ : ∀ a w, P a w → Q a { this with world := w }) :
    wp (onRemote m) Q mayStop this := by
  unfold onRemote
  rw [wp_zoom]
  exact wp_imp hm hQ

theorem onLastStrongRef.spec {P : W → Prop} {Q : Unit → BpRefBase W → Prop}
    (hremote : this.mRemote = some remote.object)
    (hm : wp remote.object.decStrong (fun _ => P) mayStop this.world)
    (hQ : ∀ w, P w → Q () { this with world := w }) : wp onLastStrongRef Q mayStop this := by
  unfold onLastStrongRef
  rw [wp_bind, wp_get, hremote]
  exact onRemote.spec hm fun _ w hw => hQ w hw

theorem onIncStrongAttempted.spec {P : Bool → W → Prop} {Q : Bool → BpRefBase W → Prop}
    (hremote : this.mRemote = some remote.object) (hrefs : this.mRefs = some remote.object)
    (hm : wp remote.object.attemptIncStrong P mayStop this.world)
    (hQ : ∀ ok w, P ok w → Q ok { this with world := w }) :
    wp onIncStrongAttempted Q mayStop this := by
  unfold onIncStrongAttempted
  rw [wp_bind, wp_get, hremote, hrefs]
  exact onRemote.spec hm hQ

/-! ## What holds between two calls -/

/-- The owner of the object has taken the reference of the constructor over. -/
def Acquired (this : BpRefBase W) : Prop := this.mState &&& kRemoteAcquired ≠ 0

instance (this : BpRefBase W) : Decidable this.Acquired := inferInstanceAs (Decidable (_ ≠ _))

theorem not_acquired_of_zero (h : this.mState = 0) : ¬this.Acquired := by
  unfold Acquired
  rw [h]
  decide

theorem acquired_after_first (this : BpRefBase W) :
    Acquired { this with mState := this.mState ||| kRemoteAcquired } := by
  have habsorbed : (this.mState ||| kRemoteAcquired) &&& kRemoteAcquired = kRemoteAcquired := by
    grind
  unfold Acquired
  dsimp only
  rw [habsorbed]
  decide

/-- The strong references on the remote binder: one of the constructor until the owner takes it
over, and one while there is an owner. -/
def balance (this : BpRefBase W) (strong : Nat) : Nat :=
  (if this.Acquired then 0 else 1) + if 0 < strong then 1 else 0

theorem balance_succ (this : BpRefBase W) (n : Nat) :
    this.balance (n + 1) = this.balance 0 + 1 := by
  unfold balance
  rw [if_pos (Nat.succ_pos n), if_neg (Nat.lt_irrefl 0), Nat.add_zero]

theorem balance_acquired (h : this.Acquired) : this.balance 0 = 0 := by
  unfold balance
  rw [if_pos h]
  rfl

theorem balance_not_acquired (h : ¬this.Acquired) : this.balance 0 = 1 := by
  unfold balance
  rw [if_neg h]
  rfl

/-- The object holds `held` strong references on its remote binder and a weak one, as its users'
references on it ask for. From 2^28 strong references on, the count of the object is lost, but then
none of them comes back. -/
structure Balanced (remote : Shared W) (held : Nat) (this : BpRefBase W) (l : Ledger) : Prop where
  mRemote : this.mRemote = some remote.object
  mRefs : this.mRefs = some remote.object
  flags : this.m_refbase.mFlags = OBJECT_LIFETIME_WEAK
  weakCount : this.m_refbase.mWeak = BitVec.ofNat 32 (l.weak + l.strong)
  below : l.weak + l.strong ≤ 2 ^ 31
  holds : remote.Holds held 1 this.world
  owned : 0 < l.strong → 1 ≤ held
  exact : l.strong < 2 ^ 28 → this.m_refbase.mStrong = strongWord l.strongCount ∧
    held = this.balance l.strong
  unowned : l.owned = false → l.strong = 0 ∧ ¬this.Acquired

namespace Balanced

variable {l : Ledger} {n held : Nat}

/-- While the counts are exact, they are these. -/
theorem counts_eq (h : Balanced remote held this l) (hsmall : l.strong < 2 ^ 28) :
    object.refs this = counts OBJECT_LIFETIME_WEAK l.strongCount (l.weak + l.strong) := by
  obtain ⟨hstrong, -⟩ := h.exact hsmall
  have heta : object.refs this = ⟨this.m_refbase.mStrong, this.m_refbase.mWeak,
      this.m_refbase.mFlags⟩ := rfl
  rw [heta, hstrong, h.weakCount, h.flags]
  rfl

/-- The counts of an object with a strong reference. -/
theorem of_pos (h : Balanced remote held this l) (hsmall : l.strong < 2 ^ 28)
    (hpos : 0 < l.strong) :
    ∃ n, l = ⟨true, n + 1, l.weak⟩ ∧
      object.refs this = counts OBJECT_LIFETIME_WEAK (some (n + 1)) (l.weak + n + 1) := by
  have hcounts := h.counts_eq hsmall
  have hunowned := h.unowned
  obtain ⟨owned, strong, weak⟩ := l
  obtain ⟨n, rfl⟩ : ∃ n, strong = n + 1 := ⟨strong - 1, by dsimp only at hpos; omega⟩
  cases owned with
  | true => exact ⟨n, rfl, hcounts⟩
  | false => exact absurd (hunowned rfl).1 (Nat.succ_ne_zero n)

/-- The same with exact counts. -/
theorem of_exact {this' : BpRefBase W} {l' : Ledger} {held' : Nat} (h : Balanced remote held this l)
    (hremote : this'.mRemote = this.mRemote) (hrefs : this'.mRefs = this.mRefs)
    (hholds : remote.Holds held' 1 this'.world) (hbelow : l'.weak + l'.strong ≤ 2 ^ 31)
    (hcounts : this'.m_refbase =
      counts OBJECT_LIFETIME_WEAK l'.strongCount (l'.weak + l'.strong))
    (hbalance : held' = this'.balance l'.strong)
    (hunowned : l'.owned = false → l'.strong = 0 ∧ ¬this'.Acquired) :
    Balanced remote held' this' l' where
  mRemote := hremote.trans h.mRemote
  mRefs := hrefs.trans h.mRefs
  flags := by
    rw [hcounts]
    rfl
  weakCount := by
    rw [hcounts]
    rfl
  below := hbelow
  holds := hholds
  owned := by
    intro hpos
    rw [hbalance]
    unfold balance
    rw [if_pos hpos]
    exact Nat.le_add_left _ _
  exact := by
    intro _
    refine ⟨?_, hbalance⟩
    rw [hcounts]
    rfl
  unowned := hunowned

/-- One more reference on an object that has lost count. -/
theorem of_lost {this' : BpRefBase W} {held' : Nat} (h : Balanced remote held this l)
    (hlost : 2 ^ 28 ≤ l.strong)
    (hremote : this'.mRemote = this.mRemote) (hrefs : this'.mRefs = this.mRefs)
    (hholds : remote.Holds held' 1 this'.world)
    (hflags : this'.m_refbase.mFlags = this.m_refbase.mFlags)
    (hroom : l.weak + l.strong < 2 ^ 31)
    (hweak : this'.m_refbase.mWeak = BitVec.ofNat 32 (l.weak + l.strong + 1))
    (hmore : held ≤ held') :
    Balanced remote held' this' { l with owned := true, strong := l.strong + 1 } where
  mRemote := hremote.trans h.mRemote
  mRefs := hrefs.trans h.mRefs
  flags := hflags.trans h.flags
  weakCount := hweak
  below := hroom
  holds := hholds
  owned := fun _ => Nat.le_trans (h.owned (by omega)) hmore
  exact := by
    intro hsmall
    dsimp only at hsmall
    omega
  unowned := fun hno => by cases hno

end Balanced

/-! ## The operations -/

section

variable {l : Ledger} {Q : Unit → BpRefBase W → Prop} {n held : Nat}

/-- One more weak reference, or the check of `incWeak`. -/
theorem incWeak_any (hweak : this.m_refbase.mWeak = BitVec.ofNat 32 n) (hn : n ≤ 2 ^ 31)
    (hQ : n < 2 ^ 31 → Q () { this with
      m_refbase := { this.m_refbase with mWeak := BitVec.ofNat 32 (n + 1) } }) :
    wp object.incWeak Q mayStop this := by
  unfold RefBase.incWeak
  rw [wp_bind, RefBase.wp_fetchAddWeak, wp_ite]
  refine ⟨fun _ => trivial, fun hnonneg => ?_⟩
  have hroom : n < 2 ^ 31 := by
    by_contra hfull
    obtain rfl : n = 2 ^ 31 := by omega
    have hrefs : (object.refs this).mWeak = BitVec.ofNat 32 (2 ^ 31) := hweak
    rw [hrefs] at hnonneg
    exact hnonneg (by decide)
  have hsum : (object.refs this).mWeak + 1 = BitVec.ofNat 32 (n + 1) := by
    rw [← ofNat_add_one, ← hweak]
    rfl
  rw [wp_pure, hsum]
  exact hQ hroom

/-- Above `MAX_COUNT` no weak reference comes back. -/
theorem decWeak_stops (hweak : this.m_refbase.mWeak = BitVec.ofNat 32 n) (hmany : 2 ^ 20 ≤ n)
    (hn : n < 2 ^ 32) : wp object.decWeak Q mayStop this := by
  have hbad : badWeak (object.refs this).mWeak = true := by
    have hrefs : (object.refs this).mWeak = BitVec.ofNat 32 n := hweak
    rw [hrefs]
    exact badWeak_above hmany hn
  unfold RefBase.decWeak
  rw [wp_bind, RefBase.wp_fetchSubWeak, wp_ite]
  exact ⟨fun _ => trivial, fun hno => absurd hbad hno⟩

theorem incWeak_balanced (h : Balanced remote held this l) :
    wp object.incWeak (fun _ this' => Balanced remote held this' { l with weak := l.weak + 1 })
      mayStop this := by
  refine incWeak_any h.weakCount h.below fun hroom => ?_
  exact
    { mRemote := h.mRemote
      mRefs := h.mRefs
      flags := h.flags
      weakCount := by rw [Nat.add_right_comm]
      below := by
        dsimp only
        omega
      holds := h.holds
      owned := h.owned
      exact := h.exact
      unowned := h.unowned }

theorem decWeak_balanced (h : Balanced remote held this l) (hpos : 0 < l.weak) :
    wp object.decWeak (fun _ this' => Balanced remote held this' { l with weak := l.weak - 1 })
      mayStop this := by
  have hbelow := h.below
  by_cases hfew : l.weak + l.strong < 2 ^ 20
  · have hcounts := h.counts_eq (by omega)
    obtain ⟨n, hn⟩ : ∃ n, l.weak = n + 1 := ⟨l.weak - 1, by omega⟩
    rw [hn, Nat.add_right_comm] at hcounts
    have hless : Balanced remote held
        (object.putRefs (counts OBJECT_LIFETIME_WEAK l.strongCount (n + l.strong)) this)
        { l with weak := l.weak - 1 } := by
      refine h.of_exact rfl rfl h.holds ?_ ?_ (h.exact (by omega)).2 h.unowned
      · dsimp only
        omega
      · rw [hn]
        rfl
    rw [RefBase.decWeak.spec hcounts (by omega)]
    split
    · exact hless
    · exact hless
  · exact decWeak_stops h.weakCount (by omega) (by omega)

/-- An ordinary strong reference asks for none on the remote binder: the first one takes over that
of the constructor. -/
theorem incStrong_balanced (h : Balanced remote held this l)
    (hok : l.owned = false ∨ 0 < l.strong) :
    wp object.incStrong
      (fun _ this' => Balanced remote held this' { l with owned := true, strong := l.strong + 1 })
      mayStop this := by
  by_cases hroom : l.weak + l.strong < 2 ^ 31
  case neg =>
    unfold RefBase.incStrong
    rw [wp_bind]
    exact incWeak_any h.weakCount h.below fun hroom' => absurd hroom' hroom
  by_cases hsmall : l.strong < 2 ^ 28
  case neg =>
    unfold RefBase.incStrong
    rw [wp_bind]
    refine incWeak_any h.weakCount h.below fun _ => ?_
    rw [wp_bind, RefBase.wp_fetchAddStrong, wp_ite, wp_ite]
    refine ⟨fun _ => trivial, fun _ => ⟨fun _ => ?_, fun _ => ?_⟩⟩
    · exact h.of_lost (by omega) rfl rfl h.holds rfl hroom rfl (Nat.le_refl _)
    · rw [wp_bind, RefBase.wp_fetchSubStrong, wp_ite]
      refine ⟨fun _ => trivial, fun _ => ?_⟩
      exact h.of_lost (by omega) rfl rfl h.holds rfl hroom rfl (Nat.le_refl _)
  have hbalance := (h.exact hsmall).2
  by_cases hpos : 0 < l.strong
  · obtain ⟨n, hl, hcounts⟩ := h.of_pos hsmall hpos
    rw [hl] at hroom hsmall hbalance
    rw [RefBase.incStrong.spec_owned hcounts hsmall (by dsimp only at hroom; omega), hl]
    refine h.of_exact rfl rfl h.holds hroom rfl ?_ fun hno => by cases hno
    exact hbalance.trans rfl
  · have h0 : l.strong = 0 := by omega
    have hno : l.owned = false := hok.resolve_right hpos
    have hcounts := h.counts_eq hsmall
    have hnone : l.strongCount = none := by
      unfold Ledger.strongCount
      rw [hno]
      rfl
    rw [hnone] at hcounts
    rw [RefBase.incStrong.spec_first hcounts hroom]
    refine h.of_exact rfl rfl h.holds hroom ?_ ?_ fun hno => by cases hno
    · rw [h0]
      rfl
    · rw [h0, balance_not_acquired (h.unowned hno).2] at hbalance
      rw [balance_succ, balance_acquired (acquired_after_first _)]
      exact hbalance

/-- Above `MAX_COUNT` no strong reference comes back. -/
theorem decStrong_stops (h : Balanced remote held this l) (hmany : 2 ^ 20 ≤ l.weak + l.strong) :
    wp object.decStrong Q mayStop this := by
  have hbelow := h.below
  have hstop : ∀ {this' : BpRefBase W}, this'.m_refbase.mWeak = this.m_refbase.mWeak →
      wp object.decWeak Q mayStop this' := fun hsame =>
    decWeak_stops (hsame.trans h.weakCount) hmany (by omega)
  have hany : ∀ w, wp remote.object.decStrong (fun _ _ => True) mayStop w :=
    fun _ => wp_of_all (fun _ _ => trivial) fun _ => trivial
  unfold RefBase.decStrong
  rw [wp_bind, RefBase.wp_fetchSubStrong, wp_ite, wp_ite]
  refine ⟨fun _ => trivial, fun _ => ⟨fun _ => ?_, fun _ => hstop rfl⟩⟩
  rw [wp_bind]
  refine onLastStrongRef.spec h.mRemote (hany _) fun w _ => ?_
  rw [wp_bind, RefBase.wp_load, wp_ite]
  refine ⟨fun _ => ?_, fun _ => hstop rfl⟩
  rw [wp_bind]
  exact hstop rfl

/-- The last strong reference gives one back on the remote binder. -/
theorem decStrong_balanced (h : Balanced remote held this l) (hpos : 0 < l.strong) :
    wp object.decStrong
      (fun _ this' => ∃ held', Balanced remote held' this' { l with strong := l.strong - 1 })
      mayStop this := by
  by_cases hfew : l.weak + l.strong < 2 ^ 20
  case neg => exact decStrong_stops h (by omega)
  have hbalance := (h.exact (by omega)).2
  have hholds := h.holds
  obtain ⟨n, hl, hcounts⟩ := h.of_pos (by omega) hpos
  rw [hl] at hfew hbalance
  dsimp only at hfew
  rcases n with _ | n
  · rw [balance_succ] at hbalance
    rw [hbalance] at hholds
    rw [RefBase.decStrong.spec_last hcounts]
    refine onLastStrongRef.spec h.mRemote (Shared.decStrong.spec hholds) fun w hw => ?_
    have hlast : Balanced remote (this.balance 0)
        (object.putRefs (counts OBJECT_LIFETIME_WEAK (some 0) l.weak) { this with world := w })
        ⟨true, 0, l.weak⟩ := by
      refine h.of_exact rfl rfl hw ?_ rfl rfl fun hno => by cases hno
      dsimp only
      omega
    rw [RefBase.decWeak.spec (w := l.weak) rfl (by omega), hl]
    split
    · exact ⟨_, hlast⟩
    · exact ⟨_, hlast⟩
  · rw [RefBase.decStrong.spec_more (w := l.weak + n) hcounts (by omega) (by omega), hl]
    refine ⟨held, h.of_exact rfl rfl hholds ?_ rfl ?_ fun hno => by cases hno⟩
    · dsimp only
      omega
    · exact hbalance.trans rfl

/-- The ledger after an attempt. -/
def attempted (l : Ledger) (ok : Bool) : Ledger := l.after .attemptIncStrong ok

/-- A refused attempt gives its weak reference back. -/
theorem attempt_refused (h : Balanced remote held this l) (hroom : l.weak + l.strong < 2 ^ 31)
    {refs : WeakrefImpl} {w : W} (hholds : remote.Holds held 1 w)
    (hrefs : refs = { this.m_refbase with mWeak := BitVec.ofNat 32 (l.weak + l.strong + 1) }) :
    wp object.decWeak (fun _ this' => Balanced remote held this' l) mayStop
      { this with m_refbase := refs, world := w } := by
  by_cases hfew : l.weak + l.strong + 1 < 2 ^ 20
  · have hcounts := h.counts_eq (by omega)
    have hrefs' : object.refs { this with m_refbase := refs, world := w } =
        counts OBJECT_LIFETIME_WEAK l.strongCount (l.weak + l.strong + 1) := by
      have hsame : this.m_refbase = counts OBJECT_LIFETIME_WEAK l.strongCount
        (l.weak + l.strong) := hcounts
      rw [hsame] at hrefs
      exact hrefs
    have hback : Balanced remote held (object.putRefs
        (counts OBJECT_LIFETIME_WEAK l.strongCount (l.weak + l.strong))
        { this with m_refbase := refs, world := w }) l :=
      h.of_exact rfl rfl hholds h.below rfl (h.exact (by omega)).2 h.unowned
    rw [RefBase.decWeak.spec hrefs' hfew]
    split
    · exact hback
    · exact hback
  · refine decWeak_stops (n := l.weak + l.strong + 1) ?_ (by omega) (by omega)
    exact congrArg WeakrefImpl.mWeak hrefs

theorem attemptIncStrong_lost (h : Balanced remote held this l) (hlost : 2 ^ 28 ≤ l.strong) :
    wp object.attemptIncStrong
      (fun ok this' => ∃ held', Balanced remote held' this' (attempted l ok)) mayStop this := by
  have hweak : strongMode this.m_refbase.mFlags = false := by
    rw [h.flags]
    rfl
  unfold RefBase.attemptIncStrong
  rw [wp_bind]
  refine incWeak_any h.weakCount h.below fun hroom => ?_
  rw [wp_bind, RefBase.wp_load, wp_ite, wp_ite, wp_ite]
  refine ⟨fun _ => trivial, fun hnonneg => ⟨fun howned => ?_, fun hnone =>
    ⟨fun hmode => ?_, fun _ => ?_⟩⟩⟩
  · rw [wp_bind, RefBase.wp_fetchAddStrong]
    unfold RefBase.finishAttempt
    rw [wp_ite, wp_pure]
    refine ⟨fun hinitial => absurd hinitial howned.2, fun _ => ?_⟩
    exact ⟨held, h.of_lost hlost rfl rfl h.holds rfl hroom rfl (Nat.le_refl _)⟩
  · exact absurd (hweak.symm.trans hmode) Bool.false_ne_true
  · -- the count has come round to a value that stands for no strong reference
    have hround : ¬(this.m_refbase.mStrong ≠ 0 ∧
        this.m_refbase.mStrong ≠ INITIAL_STRONG_VALUE) := by
      rintro ⟨hsome, hnot⟩
      refine hnone ⟨lt_of_le_of_ne (not_lt.mp hnonneg) fun hzero => hsome ?_, hnot⟩
      exact BitVec.eq_of_toInt_eq hzero.symm
    rw [wp_bind]
    refine onIncStrongAttempted.spec h.mRemote h.mRefs (Shared.attemptIncStrong.spec h.holds) ?_
    intro ok w hw
    cases ok with
    | true =>
      rw [if_pos rfl, wp_bind, RefBase.wp_fetchAddStrong, wp_ite]
      refine ⟨fun hno => absurd hno hround, fun _ => ?_⟩
      unfold RefBase.finishAttempt
      rw [wp_ite]
      refine ⟨fun _ => ?_, fun _ => ?_⟩
      · exact ⟨held + 1, h.of_lost hlost rfl rfl hw rfl hroom rfl (Nat.le_succ _)⟩
      · exact ⟨held + 1, h.of_lost hlost rfl rfl hw rfl hroom rfl (Nat.le_succ _)⟩
    | false =>
      rw [if_neg Bool.false_ne_true, wp_bind]
      exact wp_imp (attempt_refused h hroom hw rfl) fun _ _ hback => ⟨held, hback⟩

theorem attemptIncStrong_balanced (h : Balanced remote held this l) :
    wp object.attemptIncStrong
      (fun ok this' => ∃ held', Balanced remote held' this' (attempted l ok)) mayStop this := by
  by_cases hroom : l.weak + l.strong < 2 ^ 31
  case neg =>
    unfold RefBase.attemptIncStrong
    rw [wp_bind]
    exact incWeak_any h.weakCount h.below fun hroom' => absurd hroom' hroom
  by_cases hsmall : l.strong < 2 ^ 28
  case neg => exact attemptIncStrong_lost h (by omega)
  have hbalance := (h.exact hsmall).2
  by_cases hpos : 0 < l.strong
  · obtain ⟨n, hl, hcounts⟩ := h.of_pos hsmall hpos
    rw [hl] at hroom hsmall hbalance
    rw [RefBase.attemptIncStrong.spec_owned hcounts hsmall (by dsimp only at hroom; omega), hl]
    refine ⟨held, h.of_exact rfl rfl h.holds hroom rfl ?_ fun hno => by cases hno⟩
    exact hbalance.trans rfl
  · have h0 : l.strong = 0 := by omega
    have hcounts := h.counts_eq hsmall
    have hzero : strongRefs l.strongCount = 0 := by
      unfold Ledger.strongCount
      rw [h0]
      split <;> rfl
    refine RefBase.attemptIncStrong.spec_asked hcounts hzero rfl hroom ?_
    refine onIncStrongAttempted.spec h.mRemote h.mRefs (Shared.attemptIncStrong.spec h.holds) ?_
    intro ok w hw
    cases ok with
    | true =>
      refine ⟨rfl, fun _ => ?_, (fun hno => by cases hno)⟩
      have hl : attempted l true = ⟨true, 1, l.weak⟩ := by
        unfold attempted Ledger.after
        simp [h0]
      rw [h0] at hbalance hroom
      rw [hl]
      refine ⟨held + 1, h.of_exact rfl rfl hw hroom ?_ ?_ fun hno => by cases hno⟩
      · rw [h0]
        rfl
      · rw [balance_succ]
        exact congrArg (· + 1) hbalance
    | false =>
      refine ⟨rfl, (fun hyes => by cases hyes), fun _ => ?_⟩
      have hsame : this.m_refbase = counts OBJECT_LIFETIME_WEAK l.strongCount
        (l.weak + l.strong) := hcounts
      have hrefused := attempt_refused h hroom (w := w) hw rfl
      rw [hsame] at hrefused
      exact wp_imp hrefused fun _ _ hback => ⟨held, hback⟩

end

/-! ## The law -/

/-- What others do with the remote binder. Their references go with its counts. -/
structure Elsewhere (remote : Shared W) where
  run : Prog W Fault Unit
  books : remote.Books run

/-- What the users of the object do with their references on it, or others with the remote
binder. -/
inductive Op (remote : Shared W)
  | incStrong
  | attemptIncStrong
  | decStrong
  | incWeak
  | decWeak
  | elsewhere (others : Elsewhere remote)

/-- One operation. It returns `true` where the source returns nothing. -/
def perform : Op remote → Prog (BpRefBase W) Fault Bool
  | .incStrong => (fun _ => true) <$> object.incStrong
  | .attemptIncStrong => object.attemptIncStrong
  | .decStrong => (fun _ => true) <$> object.decStrong
  | .incWeak => (fun _ => true) <$> object.incWeak
  | .decWeak => (fun _ => true) <$> object.decWeak
  | .elsewhere others => (fun _ => true) <$> onRemote others.run

/-- What the users hold after an operation that returned `ok`. -/
def ledgerAfter (l : Ledger) (ok : Bool) : Op remote → Ledger
  | .incStrong => l.after .incStrong ok
  | .attemptIncStrong => l.after .attemptIncStrong ok
  | .decStrong => l.after .decStrong ok
  | .incWeak => l.after .incWeak ok
  | .decWeak => l.after .decWeak ok
  | .elsewhere _ => l

/-- The object together with what its users hold. -/
def step (op : Op remote) : Prog (BpRefBase W × Ledger) Fault Bool := fun s =>
  match perform op s.1 with
  | .ok (ok, this) => .ok (ok, (this, ledgerAfter s.2 ok op))
  | .error e => .error e

def steps : List (Op remote) → Prog (BpRefBase W × Ledger) Fault Unit
  | [] => pure ()
  | op :: ops => do
    let _ ← step op
    steps ops

/-- A user gives back what it holds, and takes an ordinary strong reference only on an object
that is owned or never was. -/
def Respects (op : Op remote) (s : BpRefBase W × Ledger) : Prop :=
  match op with
  | .incStrong => s.2.owned = false ∨ 0 < s.2.strong
  | .decStrong => 0 < s.2.strong
  | .decWeak => 0 < s.2.weak
  | .attemptIncStrong | .incWeak | .elsewhere _ => True

/-- Nobody has a reference on the object, or ever had one. -/
def nobody : Ledger := ⟨false, 0, 0⟩

/-- The constructor takes one reference of each kind. -/
theorem ctor_balanced {world : W} (hworld : remote.Holds 0 0 world) :
    wp (ctor (some remote.object)) (fun _ this => Balanced remote 1 this nobody) mayStop
      (blank world) := by
  unfold ctor
  rw [wp_bind, wp_modify]
  dsimp only
  rw [wp_bind]
  refine onRemote.spec (Shared.incStrong.spec hworld) fun _ w hw => ?_
  rw [wp_bind]
  refine onRemote.spec (Shared.incWeak.spec hw) fun _ w' hw' => ?_
  rw [wp_modify]
  exact
    { mRemote := rfl
      mRefs := rfl
      flags := rfl
      weakCount := rfl
      below := by decide
      holds := hw'
      owned := fun _ => Nat.le_refl _
      exact := fun _ => ⟨rfl, (balance_not_acquired (not_acquired_of_zero rfl)).symm⟩
      unowned := fun _ => ⟨rfl, not_acquired_of_zero rfl⟩ }

theorem perform_balanced {l : Ledger} {held : Nat} {op : Op remote}
    (h : Balanced remote held this l) (hop : Respects op (this, l)) :
    wp (perform op) (fun ok this' => ∃ held', Balanced remote held' this' (ledgerAfter l ok op))
      mayStop this := by
  cases op with
  | incStrong =>
    unfold perform
    rw [wp_map]
    exact wp_imp (incStrong_balanced h hop) fun _ _ hnext => ⟨held, hnext⟩
  | attemptIncStrong => exact attemptIncStrong_balanced h
  | decStrong =>
    unfold perform
    rw [wp_map]
    exact decStrong_balanced h hop
  | incWeak =>
    unfold perform
    rw [wp_map]
    exact wp_imp (incWeak_balanced h) fun _ _ hnext => ⟨held, hnext⟩
  | decWeak =>
    unfold perform
    rw [wp_map]
    exact wp_imp (decWeak_balanced h hop) fun _ _ hnext => ⟨held, hnext⟩
  | elsewhere others =>
    unfold perform
    rw [wp_map]
    refine onRemote.spec (others.books held 1 _ h.holds) fun _ w hw => ⟨held, ?_⟩
    exact { h with holds := hw }

theorem steps_balanced {l : Ledger} {held : Nat} {ops : List (Op remote)}
    (h : Balanced remote held this l) (hops : Allowed step Respects ops (this, l)) :
    wp (steps ops) (fun _ s => ∃ held', Balanced remote held' s.1 s.2) mayStop (this, l) := by
  induction ops generalizing this l held with
  | nil => exact ⟨held, h⟩
  | cons op ops ih =>
    obtain ⟨hop, hrest⟩ := hops
    have hone := perform_balanced h hop
    unfold steps
    rw [wp_bind]
    refine wp_of_result (fun ok s' hs => ?_) fun _ _ => trivial
    have hallowed := hrest ok s' hs
    unfold step at hs
    rcases hrun : perform op this with e | ⟨ok', this'⟩
    · simp [hrun] at hs
    · simp only [hrun, Except.ok.injEq, Prod.mk.injEq] at hs
      obtain ⟨rfl, rfl⟩ := hs
      obtain ⟨held', hnext⟩ := hone.of_ok hrun
      exact ih hnext hallowed

/-- The destructor of `RefBase` reaches nothing but the object. -/
theorem refBase_dtor_keeps {Q : BpRefBase W → Prop} (hQ : Q this) :
    wp object.dtor (fun _ => Q) mayStop this := by
  unfold RefBase.dtor
  rw [wp_bind, RefBase.wp_load, wp_ite, wp_ite, wp_ite, wp_ite]
  exact ⟨fun _ => ⟨fun _ => hQ, fun _ => hQ⟩, fun _ => ⟨fun _ => hQ, fun _ =>
    ⟨fun _ => trivial, fun _ => hQ⟩⟩⟩

/-- The destructor gives everything back where nobody has a strong reference on the object. -/
theorem dtor_balanced {l : Ledger} {held : Nat} (h : Balanced remote held this l)
    (hnone : l.strong = 0) :
    wp dtor (fun _ this' => remote.Holds 0 0 this'.world) mayStop this := by
  have hbalance := (h.exact (by omega)).2
  have hholds := h.holds
  rw [hnone] at hbalance
  rw [hbalance] at hholds
  unfold dtor
  rw [wp_bind, wp_get, h.mRemote, h.mRefs]
  dsimp only
  unfold giveBack releaseRefs
  rw [wp_bind, wp_bind, wp_get, wp_ite]
  refine ⟨fun hfree => ?_, fun hacquired => ?_⟩
  · -- the reference of the constructor is still there
    rw [balance_not_acquired (not_not.mpr hfree)] at hholds
    refine onRemote.spec (Shared.decStrong.spec hholds) fun _ w hw => ?_
    rw [wp_bind]
    refine onRemote.spec (Shared.decWeak.spec hw) fun _ w' hw' => ?_
    exact refBase_dtor_keeps hw'
  · rw [balance_acquired hacquired] at hholds
    rw [wp_pure, wp_bind]
    refine onRemote.spec (Shared.decWeak.spec hholds) fun _ w hw => ?_
    exact refBase_dtor_keeps hw

/-- However a BpRefBase comes to be owned and whatever others do with its remote binder: after every
run the counts of the remote binder are the references of the others, one weak reference of the
object and `held` strong ones of it, at least one while it is owned, and after its destructor they
are the references of the others alone. -/
theorem the_remote_is_held_while_it_is_needed (remote : Shared W) (world : W)
    (hworld : remote.Holds 0 0 world) {this : BpRefBase W}
    (hctor : ctor (some remote.object) (blank world) = .ok ((), this))
    (ops : List (Op remote)) (hops : Allowed step Respects ops (this, nobody))
    {s : BpRefBase W × Ledger} (hrun : steps ops (this, nobody) = .ok ((), s)) :
    (∃ held, remote.Holds held 1 s.1.world ∧ (0 < s.2.strong → 1 ≤ held)) ∧
      (s.2.strong = 0 → ∀ this', dtor s.1 = .ok ((), this') → remote.Holds 0 0 this'.world) := by
  have hstart := (ctor_balanced hworld).of_ok hctor
  obtain ⟨held, hend⟩ := (steps_balanced hstart hops).of_ok hrun
  refine ⟨⟨held, hend.holds, hend.owned⟩, fun hnone this' hdtor => ?_⟩
  exact (dtor_balanced hend hnone).of_ok hdtor

instance decidableRespects (op : Op remote) (s : BpRefBase W × Ledger) :
    Decidable (Respects op s) := by
  unfold Respects
  cases op <;> infer_instance

/-- A binder that does nothing but count. What others hold is written down beside its counts. -/
def counting : Shared (WeakrefImpl × Shares) where
  object :=
    { refs := Prod.fst
      putRefs := fun r s => (r, s.2)
      refs_put := fun _ _ => rfl
      put_put := fun _ _ _ => rfl
      put_refs := fun _ => rfl
      onFirstRef := pure ()
      onLastStrongRef := pure ()
      onIncStrongAttempted := pure true
      onLastWeakRef := pure () }
  others := Prod.snd
  others_put := fun _ _ => rfl
  onFirstRef := fun _ _ _ h => h
  onLastStrongRef := fun _ _ _ h => h
  onIncStrongAttempted := fun _ _ _ h => h
  onLastWeakRef := fun _ _ _ h => h

/-- Another user of the binder takes a strong reference on it. -/
def anotherUser : Elsewhere counting where
  run := do
    counting.object.incStrong
    modify fun s => (s.1, { s.2 with strong := s.2.strong + 1 })
  books := by
    intro strong weak s h
    rw [wp_bind]
    refine wp_imp (Shared.incStrong.spec h) fun _ t ht => ?_
    have hmoved : t.2.strong + 1 + strong = t.2.strong + (strong + 1) := by omega
    rw [wp_modify]
    show Tallies t.1 (t.2.strong + 1 + strong) (t.2.weak + weak)
    rw [hmoved]
    exact ht

/-- The object is promoted before it has an ordinary strong reference, and once more later. -/
def promotions : List (Op counting) :=
  [.incWeak, .attemptIncStrong, .decStrong, .elsewhere anotherUser, .attemptIncStrong, .incStrong,
    .decStrong, .decStrong]

/-- The binder had one strong reference of others and got one more, and these are left. -/
theorem promotions_balance : ∃ this s this',
    ctor (some counting.object) (blank (counts OBJECT_LIFETIME_WEAK (some 1) 1, ⟨1, 0⟩)) =
        .ok ((), this) ∧
      steps promotions (this, nobody) = .ok ((), s) ∧ dtor s.1 = .ok ((), this') ∧
      counting.Holds 0 0 this'.world ∧
      this'.world = (counts OBJECT_LIFETIME_WEAK (some 2) 2, ⟨2, 0⟩) := by
  have hlife : wp (ctor (some counting.object)) (fun _ this =>
      Allowed step Respects promotions (this, nobody) ∧
        wp (steps promotions) (fun _ s => s.2.strong = 0 ∧ wp dtor (fun _ this' =>
            this'.world = (counts OBJECT_LIFETIME_WEAK (some 2) 2, ⟨2, 0⟩)) never s.1)
          never (this, nobody)) never
      (blank (counts OBJECT_LIFETIME_WEAK (some 1) 1, ⟨1, 0⟩)) := by decide +kernel
  have hworld : counting.Holds 0 0 (counts OBJECT_LIFETIME_WEAK (some 1) 1, ⟨1, 0⟩) :=
    ⟨rfl, by decide, fun _ => .inl rfl⟩
  obtain ⟨⟨⟩, this, hctor, hops, hruns⟩ := wp_never_iff.mp hlife
  obtain ⟨⟨⟩, s, hrun, hnone, hdtors⟩ := wp_never_iff.mp hruns
  obtain ⟨⟨⟩, this', hdtor, hleft⟩ := wp_never_iff.mp hdtors
  obtain ⟨-, hend⟩ :=
    the_remote_is_held_while_it_is_needed counting _ hworld hctor promotions hops hrun
  exact ⟨this, s, this', hctor, hrun, hdtor, hend hnone this' hdtor, hleft⟩

end system_binder.BpRefBase
