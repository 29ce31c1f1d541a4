-- What a parcel asks of the binders of a process, where somebody holds them: it marks them, takes
-- references on them and gives references back.
import SystemBinder.ParcelProcess
import SystemBinder.ProxyTable

open prog

namespace system_binder

/-! ## Counts of objects that are held -/

namespace Process

/-- One for an object, none for the others. -/
def once (a b : Nat) : Nat := if b = a then 1 else 0

@[simp] theorem once_self (a : Nat) : once a a = 1 := if_pos rfl

theorem once_le (a b : Nat) : once a b ≤ 1 := by
  unfold once
  split <;> omega

namespace Totals

/-- With as many strong references more on each object as `f` says. -/
def more (t : Totals) (f : Nat → Nat) : Totals := { t with strong := fun a => t.strong a + f a }

@[simp] theorem strong_more (t : Totals) (f : Nat → Nat) (a : Nat) :
    (t.more f).strong a = t.strong a + f a := rfl
@[simp] theorem weak_more (t : Totals) (f : Nat → Nat) : (t.more f).weak = t.weak := rfl
@[simp] theorem more_more (t : Totals) (f g : Nat → Nat) :
    (t.more f).more g = t.more fun a => f a + g a := by
  simp [more, Nat.add_assoc]
@[simp] theorem more_zero (t : Totals) : (t.more fun _ => 0) = t := rfl

theorem addStrong_eq {t : Totals} {a : Nat} (h : t.owned a = true) :
    t.addStrong a = t.more (once a) := by
  have howned : Function.update t.owned a true = t.owned := by
    rw [← h]
    exact Function.update_eq_self a t.owned
  unfold addStrong setStrong more
  rw [howned]
  congr 1
  funext b
  by_cases hb : b = a
  · subst hb
    simp
  · simp [once, hb]

theorem takeStrong_eq {t : Totals} {f : Nat → Nat} {a : Nat} (h : t.owned a = true) :
    (t.more fun b => f b + once a b).takeStrong a = t.more f := by
  have howned : Function.update t.owned a true = t.owned := by
    rw [← h]
    exact Function.update_eq_self a t.owned
  unfold takeStrong setStrong more
  dsimp only
  rw [howned]
  congr 1
  funext b
  by_cases hb : b = a
  · subst hb
    simp
  · simp [once, hb]

end Totals

variable {t t' : Totals} {s s' : Process} {k : Knot} {a b : Nat} {handle : BitVec 32}
  {E : Fault → Prop}

/-- Only counts changed, and they are those of `t'` now. -/
structure Recounted (t' : Totals) (s s' : Process) : Prop where
  has : Has t' s'
  same : s'.fixed = s.fixed

theorem Recounted.trans {t'' : Totals} {s'' : Process} (h : Recounted t' s s')
    (h' : Recounted t'' s' s'') : Recounted t'' s s'' := ⟨h'.has, h'.same.trans h.same⟩

theorem Recounted.strong (h : Has t s) {n : Nat} (hn : n + t.weak a < 2 ^ 20) :
    Recounted (t.setStrong a n) s
      (putRefs a (counts (s.objects a).refs.mFlags (some n) (n + t.weak a)) s) :=
  ⟨h.putStrong rfl hn, fixed_putRefs⟩

theorem incStrong.recounts (h : Has t s) (hheld : 0 < t.strong a)
    (hroom : t.strong a + 1 + t.weak a < 2 ^ 20) :
    wp (refBase k a).incStrong (fun _ s' => Recounted (t.addStrong a) s s') E s := by
  rw [incStrong.spec_owned h hheld]
  exact .strong h hroom

theorem incStrongRequireStrong.recounts (h : Has t s) (hheld : 0 < t.strong a)
    (hroom : t.strong a + 1 + t.weak a < 2 ^ 20) :
    wp (refBase k a).incStrongRequireStrong (fun _ s' => Recounted (t.addStrong a) s s') E s := by
  obtain ⟨m, hm⟩ : ∃ m, t.strong a = m + 1 := ⟨t.strong a - 1, by omega⟩
  have hsmall := h.small a
  have hrefs := h.refs a
  rw [Totals.count_of_owned (h.owned hheld), hm] at hrefs
  rw [RefBase.incStrongRequireStrong.spec hrefs (by omega) (by omega)]
  have hput := Recounted.strong h (n := t.strong a + 1) hroom
  rw [show t.strong a + 1 + t.weak a = m + 1 + t.weak a + 1 by omega, hm] at hput
  unfold Totals.addStrong
  rw [hm]
  exact hput

/-- One reference less, where others stay. -/
theorem decStrong.recounts (h : Has t s) (hmore : 1 < t.strong a) :
    wp (refBase k a).decStrong (fun _ s' => Recounted (t.takeStrong a) s s') E s := by
  have hsmall := h.small a
  rw [decStrong.spec_more h hmore]
  exact .strong h (by omega)

theorem forceIncStrong.recounts (h : Has t s) (hheld : 0 < t.strong a)
    (hroom : t.strong a + 1 + t.weak a < 2 ^ 20) :
    wp (refBase k a).forceIncStrong (fun _ s' => Recounted (t.addStrong a) s s') E s := by
  rw [forceIncStrong.spec_owned h hheld]
  exact .strong h hroom

theorem attemptIncWeak.recounts (h : Has t s) (hheld : 0 < t.strong a)
    (hroom : t.strong a + (t.weak a + 1) < 2 ^ 20) :
    wp (refBase k a).attemptIncWeak (fun ok s' => ok = true ∧ Recounted (t.addWeak a) s s')
      E s := by
  rw [RefBase.attemptIncWeak.spec (h.refs a) (h.small a), if_pos (by omega)]
  exact ⟨rfl, h.putWeak rfl hroom, fixed_putRefs⟩

theorem decWeak.recounts (h : Has t s) (hpos : 0 < t.weak a) :
    wp (refBase k a).decWeak (fun _ s' => Recounted (t.takeWeak a) s s') E s := by
  have hsmall := h.small a
  rw [decWeak.spec h hpos]
  exact ⟨h.putWeak rfl (by omega), fixed_putRefs⟩

/-! ## The look-up of a proxy that is held -/

/-- A look-up finds what it found, as long as somebody holds it. -/
theorem found_recounted (hr : Recounted t' s s') (hheld : 0 < t'.strong b)
    (h : found s handle = some b) : found s' handle = some b := by
  have hentryOf : entryOf s' handle = entryOf s handle := by
    unfold entryOf
    rw [show s'.mHandleToObject = s.mHandleToObject from congrArg Fixed.mHandleToObject hr.same]
  have hentries : s'.entries = s.entries := congrArg Fixed.entries hr.same
  unfold found at h ⊢
  rw [hentryOf, hentries]
  cases hplace : entryOf s handle with
  | none => simp [hplace] at h
  | some e =>
    simp only [hplace] at h ⊢
    cases hentry : s.entries[e]? with
    | none => simp [hentry] at h
    | some entry =>
      simp only [hentry] at h ⊢
      split at h
      · rename_i hlives
        have hbinder : entry.binder = b := Option.some.inj h
        rw [hbinder] at hlives ⊢
        rw [if_pos ⟨hlives.1, by rw [hr.has.weakCount]; omega⟩]
      · cases h

theorem short_recounted (hr : Recounted t' s s') : Short s' handle ↔ Short s handle := by
  unfold Short
  rw [show s'.mContextObject = s.mContextObject from congrArg Fixed.mContextObject hr.same]

/-- A proxy that is held is handed out with one more reference: the weak one of the look-up comes
and goes. -/
theorem getStrongProxyForHandle.recounts (h : Has t s) (hshort : ¬Short s handle)
    (hfound : found s handle = some b) (hheld : 0 < t.strong b)
    (hroom : t.strong b + 1 + (t.weak b + 1) < 2 ^ 20) :
    wp (getStrongProxyForHandle k handle) (fun r s' => r = b ∧ Recounted (t.addStrong b) s s')
      E s := by
  unfold Short at hshort
  unfold getStrongProxyForHandle
  rw [wp_bind, wp_thisProcess, if_neg hshort, wp_bind]
  unfold found at hfound
  cases hplace : entryOf s handle with
  | none => simp [hplace] at hfound
  | some e =>
    rw [hplace] at hfound
    have hlook : lookupHandleLocked handle s = .ok (some e, s) := by
      unfold entryOf at hplace
      split at hplace
      · unfold lookupHandleLocked
        simp only
        rw [if_neg (by omega), hplace]
      · cases hplace
    cases hentry : s.entries[e]? with
    | none => simp [hentry] at hfound
    | some entry =>
      simp only [hentry] at hfound
      split at hfound
      · rename_i hlives
        have hbinder : entry.binder = b := Option.some.inj hfound
        rw [wp_of_ok hlook]
        dsimp only
        unfold proxyAt isGone
        rw [wp_bind, loadEntry.spec hentry, wp_bind, if_neg hlives.1, wp_bind, hbinder]
        refine wp_imp (attemptIncWeak.recounts h hheld (by omega)) ?_
        rintro ok s₁ ⟨rfl, hlooked⟩
        rw [wp_pure, if_neg (by decide)]
        unfold reviveProxy
        rw [wp_bind]
        refine wp_imp (forceIncStrong.recounts hlooked.has (a := b) ?_ ?_) fun _ s₂ hforced => ?_
        · exact hheld
        · simpa [Totals.addWeak] using hroom
        rw [wp_bind]
        refine wp_imp (decWeak.recounts hforced.has (a := b) ?_) fun _ s₃ hgone => ?_
        · simp [Totals.addWeak, Totals.addStrong]
        rw [Totals.lookUp] at hgone
        exact ⟨rfl, (hlooked.trans hforced).trans hgone⟩
      · cases hfound

end Process

/-! ## Binders that are held -/

namespace ParcelProcess

open Process (Totals Has Recounted Short found Knot)

variable {w w' : ParcelProcess} {t t' : Totals} {k : Knot} {o : ParcelEnv} {b : BitVec 64}
  {E : Fault → Prop}

/-- Nothing is said of the stability, or a level that there is. -/
def Known (stability : BitVec 16) : Prop :=
  stability = 0 ∨ Stability.isDeclaredLevel (stability.signExtend 32) = true

/-- Somebody holds the binder, and the table has it if it is a proxy. -/
structure Sendable (t : Totals) (w : ParcelProcess) (b : BitVec 64) : Prop where
  ne : b ≠ 0
  held : 0 < t.strong b.toNat
  known : Known (w.mStability b.toNat)
  routed : ∀ handle, (w.process.objects b.toNat).binder_handle = some handle →
    ¬Short w.process handle ∧ found w.process handle = some b.toNat

/-- What a binder is marked with when it is put into a parcel. -/
def level (w : ParcelProcess) (b : BitVec 64) : BitVec 16 :=
  if w.mStability b.toNat = 0 then Stability.getLocalLevel.setWidth 16 else w.mStability b.toNat

def marked (b : BitVec 64) (w : ParcelProcess) : ParcelProcess :=
  { w with mStability := Function.update w.mStability b.toNat (level w b) }

/-- How many strong references a parcel takes on a binder: an object of handle 0 is not listed, and
the look-up of any other handle takes one of its own. -/
def dues (w : ParcelProcess) (b : BitVec 64) : Nat :=
  match (w.process.objects b.toNat).binder_handle with
  | none => 1
  | some handle => if handle = 0 then 0 else 2

/-- The object is that of the binder. -/
inductive FlatOf (w : ParcelProcess) (b : BitVec 64) (obj : FlatBinderObject) : Prop
  | ofLocal (hnone : (w.process.objects b.toNat).binder_handle = none)
      (htype : obj.type = BINDER_TYPE_BINDER) (hbinder : obj.binder = w.refsAt b.toNat)
      (hcookie : obj.cookie = b)
  | ofProxy (handle : BitVec 32) (hsome : (w.process.objects b.toNat).binder_handle = some handle)
      (htype : obj.type = BINDER_TYPE_HANDLE) (hbinder : obj.binder = handle.setWidth 64)
      (hcookie : obj.cookie = 0)

/-! ### The stability -/

/-- The word of a level gives the level back. -/
theorem setWidth_signExtend (stability : BitVec 16) :
    (stability.signExtend 32).setWidth 16 = stability := by
  apply BitVec.eq_of_getLsbD_eq
  intro i hi
  rw [BitVec.getLsbD_setWidth, BitVec.getLsbD_signExtend]
  simp [hi, show i < 32 by omega]

theorem handleOf.spec {Q : Option (BitVec 32) → ParcelProcess → Prop} (hne : b ≠ 0) :
    wp (handleOf b) Q E w ↔ Q (w.process.objects b.toNat).binder_handle w := by
  unfold handleOf onObject
  rw [if_neg hne]
  exact Iff.rfl

section

variable {Q : BitVec 64 → ParcelProcess → Prop} {handle : BitVec 32} (hne : b ≠ 0)

include hne

theorem localBinder.spec_local (hnone : (w.process.objects b.toNat).binder_handle = none) :
    wp (localBinder b) Q E w ↔ Q b w := by
  unfold localBinder
  rw [wp_bind, handleOf.spec hne, hnone]
  exact Iff.rfl

theorem localBinder.spec_proxy (hsome : (w.process.objects b.toNat).binder_handle = some handle) :
    wp (localBinder b) Q E w ↔ Q 0 w := by
  unfold localBinder
  rw [wp_bind, handleOf.spec hne, hsome]
  exact Iff.rfl

theorem remoteBinder.spec_proxy (hsome : (w.process.objects b.toNat).binder_handle = some handle) :
    wp (remoteBinder b) Q E w ↔ Q b w := by
  unfold remoteBinder
  rw [wp_bind, handleOf.spec hne, hsome]
  exact Iff.rfl

end

theorem binderHandle.spec_proxy {Q : BitVec 32 → ParcelProcess → Prop} {handle : BitVec 32}
    (hne : b ≠ 0) (hsome : (w.process.objects b.toNat).binder_handle = some handle) :
    wp (binderHandle b) Q E w ↔ Q handle w := by
  unfold binderHandle
  rw [wp_bind, handleOf.spec hne, hsome]
  exact Iff.rfl

theorem holder.spec {Q : BitVec 64 → ParcelProcess → Prop} (hne : b ≠ 0) :
    wp (Stability.holder (calls k o) b) Q E w ↔ Q b w := by
  unfold Stability.holder
  rw [calls_localBinder, wp_bind]
  cases hhandle : (w.process.objects b.toNat).binder_handle with
  | none =>
    rw [localBinder.spec_local hne hhandle, if_pos hne]
    exact Iff.rfl
  | some handle =>
    rw [localBinder.spec_proxy hne hhandle, if_neg (by simp), calls_remoteBinder]
    exact remoteBinder.spec_proxy hne hhandle

theorem getRepr.spec {Q : BitVec 16 → ParcelProcess → Prop} (hne : b ≠ 0) :
    wp (Stability.getRepr (calls k o) b) Q E w ↔ Q (w.mStability b.toNat) w := by
  unfold Stability.getRepr
  rw [if_neg hne, wp_bind, holder.spec hne]
  exact Iff.rfl

/-- A binder that is put into a parcel is marked where nothing was said of it. -/
theorem tryMarkCompilationUnit.spec {Q : Unit → ParcelProcess → Prop} (hne : b ≠ 0) :
    wp (Stability.tryMarkCompilationUnit (calls k o) b) Q E w ↔ Q () (marked b w) := by
  have hlevel : Stability.isDeclaredLevel Stability.getLocalLevel = true := by decide
  unfold Stability.tryMarkCompilationUnit Stability.setRepr
  rw [wp_bind, wp_bind, getRepr.spec hne, if_neg hne, if_neg (by rw [hlevel]; decide)]
  by_cases hzero : w.mStability b.toNat = 0
  · rw [hzero, if_neg (by decide), if_neg (by decide), wp_bind, holder.spec hne]
    unfold marked level
    rw [if_pos hzero]
    exact Iff.rfl
  · have hsame : marked b w = w := by
      unfold marked level
      rw [if_neg hzero, Function.update_eq_self]
    have hne' : (w.mStability b.toNat).signExtend 32 ≠ Stability.UNDECLARED := by
      intro h
      apply hzero
      rw [← setWidth_signExtend (w.mStability b.toNat), h]
      rfl
    rw [hsame]
    split
    · exact Iff.rfl
    · rw [if_pos ⟨hne', by simp⟩]
      exact Iff.rfl

/-- A binder that has a level keeps it. -/
theorem setRepr.spec_same {Q : Int → ParcelProcess → Prop} {stability : BitVec 16} (hne : b ≠ 0)
    (hsame : w.mStability b.toNat = stability)
    (hknown : Stability.isDeclaredLevel (stability.signExtend 32) = true) :
    wp (Stability.setRepr (calls k o) b (stability.signExtend 32) false) Q E w ↔
      Q STATUS_OK w := by
  unfold Stability.setRepr
  rw [wp_bind, getRepr.spec hne, if_neg hne, if_neg (by rw [hknown]; decide), if_pos (by rw [hsame])]
  exact Iff.rfl

theorem Known.level (h : Known (w.mStability b.toNat)) :
    Stability.isDeclaredLevel ((level w b).signExtend 32) = true := by
  unfold ParcelProcess.level
  split
  · decide
  · rename_i hne
    exact h.resolve_left hne

/-! ### The object of a binder -/

/-- Nothing but the attributes of local binders changed. -/
structure Quiet (w w' : ParcelProcess) : Prop where
  process : w'.process = w.process
  mStability : w'.mStability = w.mStability
  refsAt : w'.refsAt = w.refsAt

theorem ask.spec {α : Type} {m : Prog BBinder Fault α} {Q : α → ParcelProcess → Prop}
    (hm : wp m (fun r _ => Q r w) (fun _ => False) (w.locals b.toNat)) :
    wp (ask b m) Q E w := by
  unfold wp at hm ⊢
  unfold ask
  cases hrun : m (w.locals b.toNat) with
  | ok r =>
    rw [hrun] at hm
    exact hm
  | error e =>
    rw [hrun] at hm
    exact hm.elim

theorem readExtras.answers {α : Type} {default : α} {f : BBinderExtras → α}
    {Q : α → ParcelProcess → Prop} (h : ∀ r, Q r w) :
    wp (BBinder.readExtras default f) (fun r _ => Q r w) (fun _ => False) (w.locals b.toNat) := by
  have hthis : BBinder.thisBinder (w.locals b.toNat) =
      .ok (w.locals b.toNat, w.locals b.toNat) := rfl
  unfold BBinder.readExtras
  rw [wp_bind, wp_of_ok hthis]
  cases hextras : (w.locals b.toNat).mExtras with
  | none => exact h _
  | some e =>
    have hlt := w.extras_lt _ e hextras
    unfold wp BBinder.onExtras
    simp only [List.getElem?_eq_getElem hlt]
    exact h _

theorem flatProxy.spec {handle schedBits : BitVec 32} {old : FlatBinderObject} (hne : b ≠ 0)
    (hsome : (w.process.objects b.toNat).binder_handle = some handle) :
    wp (Parcel.flatProxy (calls k o) b schedBits old)
      (fun obj w' => FlatOf w b obj ∧ w' = w) E w := by
  rw [Parcel.flatProxy_eq, calls_remoteBinder, calls_binderHandle, wp_bind,
    remoteBinder.spec_proxy hne hsome, if_pos hne, wp_bind, binderHandle.spec_proxy hne hsome,
    wp_pure]
  exact ⟨.ofProxy handle hsome rfl rfl rfl, rfl⟩

theorem flatLocal.spec {schedBits : BitVec 32} {old : FlatBinderObject}
    (hnone : (w.process.objects b.toNat).binder_handle = none) :
    wp (Parcel.flatLocal (calls k o) b schedBits old)
      (fun obj w' => FlatOf w b obj ∧ w' = w) E w := by
  rw [Parcel.flatLocal_eq, wp_bind]
  apply ask.spec
  apply readExtras.answers
  intro policy
  rw [wp_bind]
  apply ask.spec
  apply readExtras.answers
  intro priority
  rw [wp_bind]
  apply ask.spec
  apply readExtras.answers
  intro sid
  rw [wp_bind]
  apply ask.spec
  apply readExtras.answers
  intro rt
  exact ⟨.ofLocal hnone rfl rfl rfl, rfl⟩

/-- A binder that is flattened changes nothing but that it is parceled. -/
theorem flatOf.spec {old : FlatBinderObject} (hne : b ≠ 0) :
    wp (Parcel.flatOf (calls k o) b old) (fun obj w' => FlatOf w b obj ∧ Quiet w w') E w := by
  unfold Parcel.flatOf
  rw [if_pos hne, calls_localBinder, wp_bind]
  cases hhandle : (w.process.objects b.toNat).binder_handle with
  | some handle =>
    rw [localBinder.spec_proxy hne hhandle]
    dsimp only
    rw [if_neg (by simp), wp_bind, calls_backgroundSchedulingDisabled]
    show wp (if b ≠ 0 then _ else _) _ E w
    rw [if_pos hne, if_pos rfl]
    apply wp_imp (flatProxy.spec hne hhandle)
    rintro obj _ ⟨hobj, rfl⟩
    exact ⟨hobj, rfl, rfl, rfl⟩
  | none =>
    rw [localBinder.spec_local hne hhandle]
    dsimp only
    rw [if_pos hne, wp_bind, calls_setParceled]
    unfold setParceled
    rw [wp_modify, wp_bind, calls_backgroundSchedulingDisabled]
    show wp (if b ≠ 0 then _ else _) _ E _
    rw [if_pos hne, if_neg hne]
    apply wp_imp (flatLocal.spec (by exact hhandle))
    rintro obj _ ⟨hobj, rfl⟩
    refine ⟨?_, rfl, rfl, rfl⟩
    cases hobj with
    | ofLocal hnone htype hbinder hcookie => exact .ofLocal hhandle htype hbinder hcookie
    | ofProxy handle hsome => exact absurd (hsome.symm.trans hhandle) (by simp)

/-- The object of no binder is a null one. -/
theorem flatOf.spec_null {old : FlatBinderObject} :
    wp (Parcel.flatOf (calls k o) 0 old)
      (fun obj w' => (∃ flags, obj = ⟨BINDER_TYPE_BINDER, flags, 0, 0⟩) ∧ w' = w) E w :=
  ⟨⟨_, rfl⟩, rfl⟩

/-! ### References -/

/-- The counts are those of `t'`, and no binder lost its level. -/
structure Changed (t' : Totals) (w w' : ParcelProcess) : Prop where
  counts : Recounted t' w.process w'.process
  refsAt : w'.refsAt = w.refsAt
  levels : ∀ b, w'.mStability b = w.mStability b ∨
    w.mStability b = 0 ∧ w'.mStability b = Stability.getLocalLevel.setWidth 16

theorem Changed.trans {t'' : Totals} {w'' : ParcelProcess} (h : Changed t' w w')
    (h' : Changed t'' w' w'') : Changed t'' w w'' := by
  refine ⟨h.counts.trans h'.counts, h'.refsAt.trans h.refsAt, fun b => ?_⟩
  rcases h.levels b with hsame | ⟨hzero, hset⟩
  · rw [← hsame]
    exact h'.levels b
  · rcases h'.levels b with hsame' | ⟨hzero', -⟩
    · exact Or.inr ⟨hzero, hsame'.trans hset⟩
    · exact absurd (hset.symm.trans hzero') (by decide)

theorem Changed.refl (h : Has t w.process) : Changed t w w := ⟨⟨h, rfl⟩, rfl, fun _ => .inl rfl⟩

theorem Quiet.changed (h : Quiet w w') (hhas : Has t w.process) : Changed t w w' :=
  ⟨⟨by rw [h.process]; exact hhas, by rw [h.process]⟩, h.refsAt, fun b => .inl (by rw [h.mStability])⟩

theorem marked_changed (hhas : Has t w.process) : Changed t w (marked b w) := by
  refine ⟨⟨hhas, rfl⟩, rfl, fun c => ?_⟩
  unfold marked level
  by_cases hc : c = b.toNat
  · subst hc
    dsimp only
    rw [Function.update_self]
    split
    · rename_i hzero
      exact .inr ⟨hzero, rfl⟩
    · exact .inl rfl
  · exact .inl (by dsimp only; rw [Function.update_of_ne hc])

theorem Changed.handle (h : Changed t' w w') (a : Nat) :
    (w'.process.objects a).binder_handle = (w.process.objects a).binder_handle :=
  congrFun (congrArg Process.Fixed.handles h.counts.same) a

theorem dues_le (w : ParcelProcess) (b : BitVec 64) : dues w b ≤ 2 := by
  unfold dues
  split
  · omega
  · split <;> omega

theorem Changed.dues (h : Changed t' w w') : dues w' b = dues w b := by
  unfold ParcelProcess.dues
  rw [h.handle]

/-- The object of a binder is its object later. -/
theorem FlatOf.changed {obj : FlatBinderObject} (h : FlatOf w b obj) (hc : Changed t' w w') :
    FlatOf w' b obj := by
  cases h with
  | ofLocal hnone htype hbinder hcookie =>
    exact .ofLocal ((hc.handle _).trans hnone) htype (by rw [hc.refsAt]; exact hbinder) hcookie
  | ofProxy handle hsome htype hbinder hcookie =>
    exact .ofProxy handle ((hc.handle _).trans hsome) htype hbinder hcookie

/-- A level that was declared stays. -/
theorem Changed.declared (hc : Changed t' w w')
    (h : Stability.isDeclaredLevel ((w.mStability b.toNat).signExtend 32) = true) :
    w'.mStability b.toNat = w.mStability b.toNat := by
  rcases hc.levels b.toNat with hsame | ⟨hzero, -⟩
  · exact hsame
  · rw [hzero] at h
    exact absurd h (by decide)

/-- What can be sent can be sent again. -/
theorem Sendable.changed (h : Sendable t w b) (hc : Changed t' w w')
    (hheld : 0 < t'.strong b.toNat) : Sendable t' w' b := by
  refine ⟨h.ne, hheld, ?_, fun handle hhandle => ?_⟩
  · rcases hc.levels b.toNat with hsame | ⟨-, hset⟩
    · rw [hsame]
      exact h.known
    · rw [hset]
      exact .inr (by decide)
  · rw [hc.handle] at hhandle
    obtain ⟨hshort, hfound⟩ := h.routed handle hhandle
    exact ⟨by rwa [Process.short_recounted hc.counts],
      Process.found_recounted hc.counts hheld hfound⟩

/-- It can be sent while somebody else holds it, whatever else was taken on it. -/
theorem Sendable.still {f : Nat → Nat} (h : Sendable t w b) (hc : Changed (t.more f) w w') :
    Sendable t w' b := by
  have hheld := h.held
  obtain ⟨hne, -, hknown, hrouted⟩ := h.changed hc (by simp only [Totals.strong_more]; omega)
  exact ⟨hne, hheld, hknown, hrouted⟩

theorem onProcess.changes {α : Type} {m : Prog Process Fault α} {Q : α → Prop}
    (h : wp m (fun r s' => Q r ∧ Recounted t' w.process s') (fun _ => False) w.process) :
    wp (onProcess m) (fun r w' => Q r ∧ Changed t' w w') E w := by
  unfold onProcess
  rw [wp_zoom]
  apply wp_mono h
  · rintro r s' ⟨hr, hs'⟩
    exact ⟨hr, hs', rfl, fun _ => .inl rfl⟩
  · exact fun _ hno => hno.elim

theorem onObject.changes {m : Nat → Prog Process Fault Unit} (hne : b ≠ 0)
    (h : wp (m b.toNat) (fun _ s' => Recounted t' w.process s') (fun _ => False) w.process) :
    wp (onObject b m) (fun _ w' => Changed t' w w') E w := by
  unfold onObject
  rw [if_neg hne]
  have hm : wp (m b.toNat) (fun _ s' => True ∧ Recounted t' w.process s') (fun _ => False)
      w.process := wp_imp h fun _ _ hr => ⟨trivial, hr⟩
  exact wp_imp (onProcess.changes hm) fun _ _ hw => hw.2

section Held

variable (hs : Sendable t w b) (hhas : Has t w.process)
  (hroom : t.strong b.toNat + t.weak b.toNat + 2 < 2 ^ 20)

include hs hhas hroom

theorem incStrong.spec :
    wp (incStrong k b) (fun _ w' => Changed (t.more (Process.once b.toNat)) w w') E w := by
  rw [← Totals.addStrong_eq (hhas.owned hs.held)]
  exact onObject.changes hs.ne (Process.incStrong.recounts hhas hs.held (by omega))

theorem incStrongRequireStrong.spec :
    wp (incStrongRequireStrong k b)
      (fun _ w' => Changed (t.more (Process.once b.toNat)) w w') E w := by
  rw [← Totals.addStrong_eq (hhas.owned hs.held)]
  exact onObject.changes hs.ne (Process.incStrongRequireStrong.recounts hhas hs.held (by omega))

theorem getStrongProxyForHandle.spec {handle : BitVec 32}
    (hsome : (w.process.objects b.toNat).binder_handle = some handle) :
    wp (getStrongProxyForHandle k handle)
      (fun r w' => r = b ∧ Changed (t.more (Process.once b.toNat)) w w') E w := by
  obtain ⟨hshort, hfound⟩ := hs.routed handle hsome
  rw [← Totals.addStrong_eq (hhas.owned hs.held)]
  unfold getStrongProxyForHandle
  rw [wp_bind]
  refine wp_imp (onProcess.changes (Process.getStrongProxyForHandle.recounts hhas hshort hfound
    hs.held (by omega))) ?_
  rintro _ w' ⟨rfl, hw'⟩
  rw [wp_pure]
  exact ⟨BitVec.ofNat_toNat _ _, hw'⟩

end Held

/-- A reference is given back, and the holder's own stays. -/
theorem decStrong.spec {f : Nat → Nat} (hne : b ≠ 0) (hheld : 0 < t.strong b.toNat)
    (hhas : Has (t.more fun a => f a + Process.once b.toNat a) w.process) :
    wp (decStrong k b) (fun _ w' => Changed (t.more f) w w') E w := by
  have howned : t.owned b.toNat = true :=
    hhas.owned (t := t.more _) (by simp only [Totals.strong_more]; omega)
  rw [← Totals.takeStrong_eq howned]
  refine onObject.changes hne (Process.decStrong.recounts hhas ?_)
  simp only [Totals.strong_more, Process.once_self]
  omega

/-! ### Objects in parcels -/

theorem FlatOf.handle_eq {obj : FlatBinderObject} {handle : BitVec 32}
    (hbinder : obj.binder = handle.setWidth 64) : obj.handle = handle := by
  unfold FlatBinderObject.handle
  rw [hbinder]
  simp

theorem FlatOf.type_ne {obj : FlatBinderObject} (h : FlatOf w b obj) :
    obj.type ≠ BINDER_TYPE_FD := by
  cases h with
  | ofLocal _ htype => rw [htype]; decide
  | ofProxy _ _ htype => rw [htype]; decide

/-- What is listed where it is no null object is listed, or the object is a null one. -/
theorem FlatOf.listed_or_null {obj : FlatBinderObject} {p : Prop} (h : FlatOf w b obj)
    (hlisted : obj.binder ≠ 0 → p) : p ∨ (obj.cookie = 0 ∧ obj.binder = 0) := by
  by_cases hzero : obj.binder = 0
  · cases h with
    | ofLocal hnone htype hbinder hcookie => exact absurd (hbinder.symm.trans hzero) (w.refsAt_ne _)
    | ofProxy handle hsome htype hbinder hcookie => exact .inr ⟨hcookie, hzero⟩
  · exact .inl (hlisted hzero)

/-- Nothing is taken on a binder whose object is a null one: that of handle 0. -/
theorem FlatOf.dues_eq_zero_iff {obj : FlatBinderObject} (h : FlatOf w b obj) :
    dues w b = 0 ↔ obj.binder = 0 := by
  unfold dues
  cases h with
  | ofLocal hnone htype hbinder hcookie =>
    rw [hnone, hbinder]
    exact ⟨fun h => absurd h (by decide), fun h => absurd h (w.refsAt_ne _)⟩
  | ofProxy handle hsome htype hbinder hcookie =>
    have hhandle : handle = 0 ↔ obj.binder = 0 := by
      constructor
      · rintro rfl
        exact hbinder
      · intro hzero
        rw [← FlatOf.handle_eq hbinder]
        unfold FlatBinderObject.handle
        rw [hzero]
        rfl
    rw [hsome, ← hhandle]
    dsimp only
    split
    · rename_i hzero
      exact ⟨fun _ => hzero, fun _ => rfl⟩
    · rename_i hne
      exact ⟨fun h => absurd h (by decide), fun h => absurd h hne⟩

/-- A parcel that lists the object of a binder takes its references. -/
theorem acquire_object.spec {obj : FlatBinderObject} (hs : Sendable t w b)
    (hhas : Has t w.process) (hroom : t.strong b.toNat + t.weak b.toNat + 3 < 2 ^ 20)
    (hobj : FlatOf w b obj) (hlisted : obj.binder ≠ 0) :
    wp (Parcel.acquire_object (calls k o).toOutside obj)
      (fun _ w' => Changed (t.more fun a => dues w b * Process.once b.toNat a) w w') E w := by
  unfold Parcel.acquire_object dues
  cases hobj with
  | ofLocal hnone htype hbinder hcookie =>
    rw [if_pos htype, if_pos hlisted, hcookie, hnone]
    simp only [Nat.one_mul]
    exact incStrong.spec hs hhas (by omega)
  | ofProxy handle hsome htype hbinder hcookie =>
    have hhandle : handle ≠ 0 := by
      rintro rfl
      exact hlisted hbinder
    rw [if_neg (by rw [htype]; decide), if_pos htype, FlatOf.handle_eq hbinder, hsome, wp_bind]
    dsimp only
    rw [if_neg hhandle]
    apply wp_imp (getStrongProxyForHandle.spec hs hhas (by omega) hsome)
    rintro r w₁ ⟨hr, hw₁⟩
    rw [hr, if_pos hs.ne]
    have hroom₁ : (t.more (Process.once b.toNat)).strong b.toNat +
        (t.more (Process.once b.toNat)).weak b.toNat + 2 < 2 ^ 20 := by
      simp only [Totals.strong_more, Process.once_self, Totals.weak_more]
      omega
    apply wp_imp (incStrong.spec (hs.changed hw₁ (by simp)) hw₁.counts.has hroom₁)
    intro _ w₂ hw₂
    rw [Totals.more_more] at hw₂
    simp only [Nat.two_mul]
    exact hw₁.trans hw₂

/-- How many references a parcel gives back with the object of a binder: what the look-up of a
handle takes is all that is given back for a proxy. -/
def back (w : ParcelProcess) (b : BitVec 64) : Nat :=
  if (w.process.objects b.toNat).binder_handle = none then 1 else 0

theorem release_object.spec {obj : FlatBinderObject} {f : Nat → Nat} (hs : Sendable t w b)
    (hhas : Has (t.more fun a => f a + back w b * Process.once b.toNat a) w.process)
    (hroom : t.strong b.toNat + f b.toNat + t.weak b.toNat + 2 < 2 ^ 20)
    (hobj : FlatOf w b obj) (hlisted : obj.binder ≠ 0) :
    wp (Parcel.release_object (calls k o).toOutside obj)
      (fun _ w' => Changed (t.more f) w w') E w := by
  have hheld := hs.held
  unfold Parcel.release_object
  unfold back at hhas
  cases hobj with
  | ofLocal hnone htype hbinder hcookie =>
    rw [hnone, if_pos rfl] at hhas
    simp only [Nat.one_mul] at hhas
    rw [if_pos htype, if_pos hlisted, hcookie]
    exact decStrong.spec hs.ne hheld hhas
  | ofProxy handle hsome htype hbinder hcookie =>
    rw [hsome, if_neg (by simp)] at hhas
    simp only [Nat.zero_mul, Nat.add_zero] at hhas
    have hs' : Sendable (t.more f) w b := ⟨hs.ne, by simp only [Totals.strong_more]; omega,
      hs.known, hs.routed⟩
    rw [if_neg (by rw [htype]; decide), if_pos htype, FlatOf.handle_eq hbinder, wp_bind]
    apply wp_imp (getStrongProxyForHandle.spec hs' hhas (by simpa using hroom) hsome)
    rintro r w₁ ⟨hr, hw₁⟩
    rw [hr, if_pos hs.ne]
    rw [Totals.more_more] at hw₁
    apply wp_imp (decStrong.spec hs.ne hheld hw₁.counts.has)
    intro _ w₂ hw₂
    exact hw₁.trans hw₂

end ParcelProcess

end system_binder
