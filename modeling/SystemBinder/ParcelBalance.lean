-- The strong counts of the binders beside the objects that a parcel lists in memory of its own: a
-- binder of the process has one reference for each object of its own, whatever memory there is.
import SystemBinder.ParcelLedger

open prog memory

namespace system_binder

/-! ## Binders of the process -/

namespace Process

variable {t : Totals} {s : Process} {n a : Nat} {E : Fault → Prop}

/-- A binder of the process is told nothing of its references. -/
theorem onFirstRef.own {Q : Unit → Process → Prop} (hown : (s.objects a).binder_handle = none) :
    wp ((knot (n + 1)).onFirstRef a) Q E s ↔ Q () s := by
  show wp (onFirstRef (knot n) a) Q E s ↔ Q () s
  unfold onFirstRef
  rw [wp_bind, wp_thisProcess, hown]
  exact Iff.rfl

theorem onLastStrongRef.own {Q : Unit → Process → Prop}
    (hown : (s.objects a).binder_handle = none) :
    wp ((knot (n + 1)).onLastStrongRef a) Q E s ↔ Q () s := by
  show wp (onLastStrongRef (knot n) a) Q E s ↔ Q () s
  unfold onLastStrongRef
  rw [wp_bind, wp_thisProcess, hown]
  exact Iff.rfl

/-- It can be referred to as long as it has a reference, or never had one. -/
theorem incStrong.recounts_own (h : Has t s) (hown : (s.objects a).binder_handle = none)
    (halive : t.owned a = true → 0 < t.strong a) (hroom : t.strong a + 1 + t.weak a < 2 ^ 20) :
    wp (refBase (knot (n + 1)) a).incStrong (fun _ s' => Recounted (t.addStrong a) s s') E s := by
  cases howned : t.owned a with
  | true => exact incStrong.recounts h (halive howned) hroom
  | false =>
    have hzero := h.fresh a howned
    have hput := Recounted.strong h (a := a) (n := 1) (by omega)
    rw [incStrong.spec_first h howned, onFirstRef.own (by rwa [handle_putRefs])]
    unfold Totals.addStrong
    rwa [hzero]

/-- Its last reference goes as any other. -/
theorem decStrong.recounts_own (h : Has t s) (hown : (s.objects a).binder_handle = none)
    (hheld : 0 < t.strong a) :
    wp (refBase (knot (n + 1)) a).decStrong (fun _ s' => Recounted (t.takeStrong a) s s') E s := by
  by_cases hmore : 1 < t.strong a
  · exact decStrong.recounts h hmore
  · have hone : t.strong a = 1 := by omega
    have hlast := h.putLast hone
    have hend : ((t.setStrong a 0).setWeak a (t.weak a + 1)).takeWeak a = t.takeStrong a := by
      unfold Totals.takeWeak Totals.takeStrong
      rw [Totals.weak_setWeak, Totals.setWeak_setWeak, hone]
      exact Totals.setWeak_self (t.setStrong a 0) a
    rw [decStrong.spec_last h hone, onLastStrongRef.own (by rwa [handle_putRefs])]
    apply wp_imp (decWeak.recounts hlast (by simp))
    intro _ s' hs'
    rw [hend] at hs'
    exact ⟨hs'.has, hs'.same.trans fixed_putRefs⟩

end Process

namespace ParcelProcess

open Process (Totals Has Recounted once knot)

variable {w w' : ParcelProcess} {t t' : Totals} {n : Nat} {o : ParcelEnv} {b : BitVec 64}
  {obj : FlatBinderObject} {objs : List FlatBinderObject} {E : Fault → Prop}

/-- The object is one of the binder at `a`. -/
def IsOf (w : ParcelProcess) (a : Nat) (obj : FlatBinderObject) : Bool :=
  match (w.process.objects a).binder_handle with
  | none => obj.type == BINDER_TYPE_BINDER && obj.binder != 0 && obj.cookie.toNat == a
  | some handle => obj.type == BINDER_TYPE_HANDLE && obj.handle == handle

/-- How many of the objects are of the binder at `a`. -/
def objectsOf (w : ParcelProcess) (objs : List FlatBinderObject) (a : Nat) : Nat :=
  objs.countP (IsOf w a)

/-- The object is no handle, and if it is a binder it is one of the process. -/
structure IsOwn (w : ParcelProcess) (obj : FlatBinderObject) : Prop where
  plain : obj.type ≠ BINDER_TYPE_HANDLE
  own : obj.type = BINDER_TYPE_BINDER → obj.binder ≠ 0 →
    obj.cookie ≠ 0 ∧ (w.process.objects obj.cookie.toNat).binder_handle = none

/-- A file that is closed is no business of the binders. -/
def ClosesQuietly (o : ParcelEnv) : Prop :=
  ∀ fd w, wp (o.close fd) (fun _ w' => Quiet w w') never w

theorem Changed.isOf (h : Changed t' w w') (a : Nat) : IsOf w' a = IsOf w a := by
  funext obj
  unfold IsOf
  rw [h.handle]

theorem Changed.objectsOf (h : Changed t' w w') : objectsOf w' = objectsOf w := by
  funext objs a
  unfold ParcelProcess.objectsOf
  rw [h.isOf]

theorem IsOwn.changed (h : IsOwn w obj) (hc : Changed t' w w') : IsOwn w' obj := by
  refine ⟨h.plain, fun htype hbinder => ?_⟩
  rw [hc.handle]
  exact h.own htype hbinder

theorem objectsOf_cons (a : Nat) :
    objectsOf w (obj :: objs) a = objectsOf w objs a + if IsOf w a obj = true then 1 else 0 :=
  List.countP_cons

/-- An object of no binder of the process counts for none. -/
theorem IsOwn.of_none (h : IsOwn w obj)
    (hno : obj.type = BINDER_TYPE_BINDER → obj.binder = 0) (a : Nat) : IsOf w a obj = false := by
  unfold IsOf
  cases (w.process.objects a).binder_handle with
  | some handle => simp [h.plain]
  | none =>
    by_cases htype : obj.type = BINDER_TYPE_BINDER
    · simp [hno htype]
    · simp [htype]

/-- An object of a binder of the process counts for that binder. -/
theorem IsOwn.of_own (h : IsOwn w obj) (htype : obj.type = BINDER_TYPE_BINDER)
    (hbinder : obj.binder ≠ 0) (a : Nat) :
    (if IsOf w a obj = true then 1 else 0) = once obj.cookie.toNat a := by
  obtain ⟨-, hown⟩ := h.own htype hbinder
  unfold IsOf once
  by_cases ha : a = obj.cookie.toNat
  · subst ha
    rw [hown]
    simpa [htype] using hbinder
  · rw [if_neg ha]
    cases (w.process.objects a).binder_handle with
    | some handle => simp [h.plain]
    | none => simp [Ne.symm ha]

/-- A binder of the process is referred to. -/
theorem incStrong.adds (hne : b ≠ 0) (hhas : Has t w.process)
    (hown : (w.process.objects b.toNat).binder_handle = none)
    (halive : t.owned b.toNat = true → 0 < t.strong b.toNat)
    (hroom : t.strong b.toNat + 1 + t.weak b.toNat < 2 ^ 20) :
    wp (incStrong (knot (n + 1)) b) (fun _ w' => Changed (t.addStrong b.toNat) w w') E w :=
  onObject.changes hne (Process.incStrong.recounts_own hhas hown halive hroom)

theorem decStrong.takes (hne : b ≠ 0) (hhas : Has t w.process)
    (hown : (w.process.objects b.toNat).binder_handle = none) (hheld : 0 < t.strong b.toNat) :
    wp (decStrong (knot (n + 1)) b) (fun _ w' => Changed (t.takeStrong b.toNat) w w') E w :=
  onObject.changes hne (Process.decStrong.recounts_own hhas hown hheld)

theorem strong_addStrong (a b : Nat) : (t.addStrong b).strong a = t.strong a + once b a := by
  unfold Totals.addStrong once
  by_cases ha : a = b
  · subst ha
    simp
  · rw [Totals.strong_setStrong_ne _ _ ha, if_neg ha, Nat.add_zero]

theorem strong_takeStrong (a b : Nat) (hheld : 0 < t.strong b) :
    (t.takeStrong b).strong a + once b a = t.strong a := by
  unfold Totals.takeStrong once
  by_cases ha : a = b
  · subst ha
    simp
    omega
  · rw [Totals.strong_setStrong_ne _ _ ha, if_neg ha, Nat.add_zero]

/-- An object that is released gives back the reference that it has. -/
theorem release_object.gives_back (hclose : ClosesQuietly o) (hobj : IsOwn w obj)
    (hhas : Has t w.process) (henough : ∀ a, objectsOf w [obj] a ≤ t.strong a) :
    wp (Parcel.release_object (calls (knot (n + 1)) o).toOutside obj) (fun _ w' =>
      ∃ t', Changed t' w w' ∧ ∀ a, t'.strong a + objectsOf w [obj] a = t.strong a) E w := by
  have hone : ∀ a, objectsOf w [obj] a = if IsOf w a obj = true then 1 else 0 := by
    intro a
    rw [objectsOf_cons]
    exact Nat.zero_add _
  have hnothing : ∀ w', Quiet w w' → (obj.type = BINDER_TYPE_BINDER → obj.binder = 0) →
      ∃ t', Changed t' w w' ∧ ∀ a, t'.strong a + objectsOf w [obj] a = t.strong a := by
    intro w' hquiet hno
    refine ⟨t, hquiet.changed hhas, fun a => ?_⟩
    rw [hone, hobj.of_none hno]
    rfl
  unfold Parcel.release_object
  by_cases htype : obj.type = BINDER_TYPE_BINDER
  · rw [if_pos htype]
    by_cases hbinder : obj.binder = 0
    · rw [if_neg (not_not.mpr hbinder)]
      exact hnothing w ⟨rfl, rfl, rfl⟩ fun _ => hbinder
    · obtain ⟨hne, hown⟩ := hobj.own htype hbinder
      have hcount := fun a => (hone a).trans (hobj.of_own htype hbinder a)
      have hheld : 0 < t.strong obj.cookie.toNat := by
        have := henough obj.cookie.toNat
        rw [hcount, Process.once_self] at this
        exact this
      rw [if_pos hbinder]
      apply wp_imp (decStrong.takes hne hhas hown hheld)
      intro _ w' hc
      refine ⟨_, hc, fun a => ?_⟩
      rw [hcount]
      exact strong_takeStrong a _ hheld
  · rw [if_neg htype, if_neg hobj.plain]
    split
    · split
      · apply wp_mono (hclose obj.handle w)
        · exact fun _ w' hquiet => hnothing w' hquiet fun h => absurd h htype
        · exact fun _ hno => hno.elim
      · exact hnothing w ⟨rfl, rfl, rfl⟩ fun h => absurd h htype
    · exact hnothing w ⟨rfl, rfl, rfl⟩ fun h => absurd h htype

/-- So do some objects. -/
theorem releaseAll.gives_back (hclose : ClosesQuietly o) (hobjs : ∀ obj ∈ objs, IsOwn w obj)
    (hhas : Has t w.process) (henough : ∀ a, objectsOf w objs a ≤ t.strong a) :
    wp (Parcel.releaseAll (calls (knot (n + 1)) o).toOutside objs) (fun _ w' =>
      ∃ t', Changed t' w w' ∧ ∀ a, t'.strong a + objectsOf w objs a = t.strong a) E w := by
  induction objs generalizing w t with
  | nil => exact ⟨t, .refl hhas, fun _ => rfl⟩
  | cons obj objs ih =>
    have hsplit : ∀ a, objectsOf w (obj :: objs) a = objectsOf w objs a + objectsOf w [obj] a := by
      intro a
      rw [objectsOf_cons, objectsOf_cons]
      exact congrArg _ (Nat.zero_add _).symm
    unfold Parcel.releaseAll
    rw [wp_bind]
    apply wp_imp (release_object.gives_back hclose (hobjs obj (by simp)) hhas fun a => by
      have := henough a
      rw [hsplit] at this
      omega)
    rintro _ w₁ ⟨t₁, hc₁, hcount₁⟩
    apply wp_imp (ih (t := t₁) (fun obj hmem => (hobjs obj (by simp [hmem])).changed hc₁)
      hc₁.counts.has fun a => by
        have hleft := henough a
        have hgone := hcount₁ a
        rw [hsplit] at hleft
        rw [hc₁.objectsOf]
        omega)
    rintro _ w₂ ⟨t₂, hc₂, hcount₂⟩
    refine ⟨t₂, hc₁.trans hc₂, fun a => ?_⟩
    have hgone := hcount₁ a
    have hrest := hcount₂ a
    rw [hc₁.objectsOf] at hrest
    rw [hsplit]
    omega

end ParcelProcess

namespace Parcel

open Process (Totals Has knot)
open ParcelProcess (Changed FlatOf Quiet IsOwn ClosesQuietly objectsOf)

/-! ## The entries of a parcel -/

/-- The objects that a parcel lists. -/
def listedObjects (p : Parcel) : List FlatBinderObject := (retained p).map p.flatAt

theorem length_listedObjects (p : Parcel) : (listedObjects p).length ≤ p.mObjectsSize := by
  unfold listedObjects retained
  rw [List.length_map, List.length_take]
  exact Nat.min_le_left _ _

/-- How many entries the parcel has for the binder at `a`. Those of a buffer of the driver are none
of its own: the references are the driver's. -/
def entries (c : Ctx ParcelProcess) (a : Nat) : Nat :=
  if c.parcel.mOwner = none then objectsOf c.world (listedObjects c.parcel) a else 0

/-- The strong count of the binder at `a`. -/
def strongOf (c : Ctx ParcelProcess) (a : Nat) : Nat :=
  Process.strongCount (c.world.process.objects a).refs

/-- Nobody but the parcel changes the count of the binder at `a`: it is one of the process, or no
buffer of the driver is handed back, with which what proxies were held for may go. -/
def Undisturbed (c : Ctx ParcelProcess) (a : Nat) : Prop :=
  c.parcel.mOwner = none ∨ (c.world.process.objects a).binder_handle = none

/-- Each strong count rose by the entries that were added, and fell by those that were dropped. -/
structure Balanced (c c' : Ctx ParcelProcess) : Prop where
  counts : ∀ a, Undisturbed c a → strongOf c' a + entries c a = strongOf c a + entries c' a
  undisturbed : ∀ a, Undisturbed c a → Undisturbed c' a

/-- The binder at `a` was not destroyed, and `m` references more are below `MAX_COUNT`. -/
def Spares (w : ParcelProcess) (a m : Nat) : Prop :=
  (w.process.objects a).refs.mStrong ≠ 0 ∧
    (w.process.objects a).refs.mWeak.toNat + m ≤ MAX_COUNT.toNat

/-- The binder gets no reference for nothing: it is NULL, the proxy of handle 0, or a binder of the
process that has `m` references to spare. -/
def Affords (w : ParcelProcess) (b : BitVec 64) (m : Nat) : Prop :=
  b = 0 ∨ (w.process.objects b.toNat).binder_handle = some 0 ∨
    (w.process.objects b.toNat).binder_handle = none ∧ Spares w b.toNat m

/-- No object stands where the next `n` bytes go. -/
def ClearFor (p : Parcel) (n : Nat) : Prop :=
  ∀ o ∈ retained p, o + FLAT_SIZE ≤ p.mDataPos ∨ p.mDataPos + n ≤ o

/-- A parcel with memory of its own, and no handles on its list. Each binder has a reference for
each of its entries. -/
structure Counted (c : Ctx ParcelProcess) : Prop where
  isLocal : Local c.parcel
  own : ∀ obj ∈ listedObjects c.parcel, IsOwn c.world obj
  counts : ∃ t, Has t c.world.process
  enough : ∀ a, entries c a ≤ strongOf c a

variable {c c' c'' : Ctx ParcelProcess} {t t' : Totals} {n m : Nat} {o : ParcelEnv}
  {b : BitVec 64} {E : Fault → Prop}

/-! ### What keeps the list -/

section

variable {W : Type} {d d' : Ctx W}

theorem Local.inside {p : Parcel} (l : Local p) :
    ∀ o ∈ retained p, o + FLAT_SIZE ≤ p.mDataCapacity := by
  intro o ho
  obtain ⟨i, hi⟩ := List.mem_iff_getElem?.mp ho
  rw [getElem?_retained] at hi
  split at hi
  · rename_i hlt
    exact l.offsets i o hlt hi
  · cases hi

/-- The objects are those of before where their bytes are. -/
theorem listedObjects_same {p p' : Parcel} (hlist : retained p' = retained p)
    (hbytes : ∀ o ∈ retained p, window p'.cells o FLAT_SIZE = window p.cells o FLAT_SIZE) :
    listedObjects p' = listedObjects p := by
  unfold listedObjects
  rw [hlist]
  apply List.map_congr_left
  intro o ho
  unfold flatAt
  rw [hbytes o ho]

theorem Kept.listedObjects (l : Local d.parcel) (k : Kept d d') :
    listedObjects d'.parcel = listedObjects d.parcel :=
  listedObjects_same (retained_congr k.objectsSize fun i hi => k.prepared.table i hi) fun o ho =>
    k.cells o _ (l.inside o ho)

theorem Refused.listedObjects (l : Local d.parcel) (hclear : ClearFor d.parcel FLAT_SIZE)
    (r : Refused d d') : listedObjects d'.parcel = listedObjects d.parcel :=
  listedObjects_same (retained_congr r.objectsSize r.table) fun o ho =>
    r.others o _ (l.inside o ho) (hclear o ho)

theorem Advanced.listedObjects {n : Nat} (l : Local d.parcel) (hclear : ClearFor d.parcel n)
    (a : Advanced d d' n) : listedObjects d'.parcel = listedObjects d.parcel :=
  listedObjects_same a.retained fun o ho => a.others o _ (l.inside o ho) (hclear o ho)

/-- The list gets the object at its end. -/
theorem Added.listedObjects {val : FlatBinderObject} {listed : Bool} (l : Local d.parcel)
    (hclear : ClearFor d.parcel FLAT_SIZE) (a : Added d d' val listed) :
    listedObjects d'.parcel = listedObjects d.parcel ++ if listed = true then [val] else [] := by
  unfold Parcel.listedObjects
  rw [a.retained l, List.map_append]
  congr 1
  · apply List.map_congr_left
    intro o ho
    unfold flatAt
    rw [a.others o _ (l.inside o ho) (hclear o ho)]
  · cases listed with
    | false => rfl
    | true =>
      simp only [if_true, List.map_cons, List.map_nil, flatAt, a.flat,
        FlatBinderObject.ofBytes_toBytes]

/-- Behind an object that was written there is room for its level. -/
theorem Added.clear {val : FlatBinderObject} {listed : Bool} {n : Nat} (l : Local d.parcel)
    (hclear : ClearFor d.parcel (FLAT_SIZE + n)) (a : Added d d' val listed) :
    ClearFor d'.parcel n := by
  intro o ho
  rw [a.retained l] at ho
  rw [a.pos]
  rcases List.mem_append.mp ho with hold | hnew
  · have := hclear o hold
    omega
  · cases listed with
    | false => cases hnew
    | true =>
      rw [if_pos rfl, List.mem_singleton] at hnew
      omega

theorem ClearFor.less {p : Parcel} {n k : Nat} (h : ClearFor p (n + k)) : ClearFor p n := by
  intro o ho
  have := h o ho
  omega

end

/-! ### What keeps the counts -/

theorem entries_local (l : Local c.parcel) (a : Nat) :
    entries c a = objectsOf c.world (listedObjects c.parcel) a := if_pos l.owner

theorem entries_empty (hempty : c.parcel = empty) (a : Nat) : entries c a = 0 := by
  unfold entries
  rw [hempty]
  rfl

theorem entries_changed (l : Local c.parcel) (l' : Local c'.parcel)
    (hlist : listedObjects c'.parcel = listedObjects c.parcel)
    (hc : Changed t' c.world c'.world) : entries c' = entries c := by
  funext a
  rw [entries_local l, entries_local l', hlist, hc.objectsOf]

/-- The counts of the binders tell whether the entries balance. -/
theorem balanced_of_totals (l' : Local c'.parcel) (h : Has t c.world.process)
    (hc : Changed t' c.world c'.world)
    (hcount : ∀ a, t'.strong a + entries c a = t.strong a + entries c' a) : Balanced c c' where
  counts a _ := by
    unfold strongOf
    rw [h.strongCount, hc.counts.has.strongCount]
    exact hcount a
  undisturbed _ _ := .inl l'.owner

theorem Balanced.refl (c : Ctx ParcelProcess) : Balanced c c := ⟨fun _ _ => rfl, fun _ h => h⟩

theorem Balanced.trans (h : Balanced c c') (h' : Balanced c' c'') : Balanced c c'' where
  counts a hu := by
    have hfirst := h.counts a hu
    have hsecond := h'.counts a (h.undisturbed a hu)
    omega
  undisturbed a hu := h'.undisturbed a (h.undisturbed a hu)

theorem Balanced.enough (h : Balanced c c') (l : Local c.parcel)
    (henough : ∀ a, entries c a ≤ strongOf c a) : ∀ a, entries c' a ≤ strongOf c' a := by
  intro a
  have hsum := h.counts a (.inl l.owner)
  have hleft := henough a
  omega

/-- Where the list stays and no count changes, all stays in balance. -/
theorem Counted.unchanged {d : Ctx ParcelProcess} (h : Counted c) (l : Local d.parcel)
    (hlist : listedObjects d.parcel = listedObjects c.parcel)
    (hworld : ∀ t, Has t c.world.process → Changed t c.world d.world) :
    Counted d ∧ Balanced c d := by
  obtain ⟨t, hhas⟩ := h.counts
  have hc := hworld t hhas
  have hbalanced : Balanced c d := balanced_of_totals l hhas hc fun a => by
    rw [entries_changed h.isLocal l hlist hc]
  refine ⟨⟨l, ?_, ⟨t, hc.counts.has⟩, hbalanced.enough h.isLocal h.enough⟩, hbalanced⟩
  rw [hlist]
  exact fun obj hmem => (h.own obj hmem).changed hc

/-! ### The steps -/

/-- A word that goes over no object. -/
theorem writeInt32.balances {v : BitVec 32} (h : Counted c) (hclear : ClearFor c.parcel 4) :
    wp (writeInt32 (ParcelProcess.calls (knot n) o).toOutside v)
      (fun _ c' => Counted c' ∧ Balanced c c') E c := by
  apply writeAligned.spec h.isLocal (by simp) (by rw [length_wordBytes]; decide)
  · intro c' a _
    rw [length_wordBytes] at a
    refine h.unchanged a.isLocal (a.listedObjects h.isLocal hclear) fun t hhas => ?_
    rw [a.world]
    exact .refl hhas
  · intro r c' _ k _
    refine h.unchanged k.isLocal (k.listedObjects h.isLocal) fun t hhas => ?_
    rw [k.world]
    exact .refl hhas

theorem finishFlattenBinder.balances (h : Counted c) (hclear : ClearFor c.parcel 4) :
    wp (finishFlattenBinder (ParcelProcess.calls (knot n) o) b)
      (fun _ c' => Counted c' ∧ Balanced c c') E c := by
  by_cases hne : b = 0
  · -- nothing is marked where there is no binder
    subst hne
    exact writeInt32.balances h hclear
  · obtain ⟨hmarked, hbalanced⟩ := h.unchanged
      (d := c.setWorld (ParcelProcess.marked b c.world)) h.isLocal rfl
      fun t hhas => ParcelProcess.marked_changed hhas
    unfold finishFlattenBinder
    rw [wp_bind, wp_outside, ParcelProcess.tryMarkCompilationUnit.spec hne, wp_bind, wp_outside,
      ParcelProcess.getRepr.spec hne]
    apply wp_imp (writeInt32.balances hmarked hclear)
    rintro _ c' ⟨hc', hword⟩
    exact ⟨hc', hbalanced.trans hword⟩

/-- What that says of the counts. -/
theorem Spares.alive {w : ParcelProcess} {a : Nat} (h : Spares w a m) (hhas : Has t w.process) :
    (t.owned a = true → 0 < t.strong a) ∧ t.strong a + m + t.weak a < 2 ^ 20 := by
  have hmax : MAX_COUNT.toNat = 2 ^ 20 - 1 := by decide
  have hsmall := hhas.small a
  have hroom := h.2
  have hword : (w.process.objects a).refs.mWeak.toNat = t.strong a + t.weak a := by
    rw [hhas.refs a]
    show (BitVec.ofNat 32 (t.strong a + t.weak a)).toNat = _
    rw [BitVec.toNat_ofNat, Nat.mod_eq_of_lt (by omega)]
  refine ⟨fun howned => Nat.pos_of_ne_zero fun hzero => h.1 ?_, by omega⟩
  rw [hhas.refs a, Totals.count_of_owned howned, hzero]
  rfl

/-- The object of a binder is none that the parcel lists, or one of the binder itself. -/
theorem flatOf.affords {w : ParcelProcess} {old : FlatBinderObject} (h : Affords w b m)
    (hhas : Has t w.process) :
    wp (flatOf (ParcelProcess.calls (knot n) o) b old) (fun obj w' => Quiet w w' ∧
      (obj.binder ≠ 0 → IsOwn w' obj ∧ obj.type = BINDER_TYPE_BINDER ∧ obj.cookie = b ∧
        (t.owned b.toNat = true → 0 < t.strong b.toNat) ∧
        t.strong b.toNat + m + t.weak b.toNat < 2 ^ 20)) E w := by
  by_cases hne : b = 0
  · subst hne
    apply wp_imp ParcelProcess.flatOf.spec_null
    rintro _ w' ⟨⟨flags, rfl⟩, rfl⟩
    exact ⟨⟨rfl, rfl, rfl⟩, fun hbinder => absurd rfl hbinder⟩
  · have haffords := h.resolve_left hne
    apply wp_imp (ParcelProcess.flatOf.spec hne)
    rintro obj w' ⟨hobj, hquiet⟩
    refine ⟨hquiet, fun hbinder => ?_⟩
    cases hobj with
    | ofProxy handle hsome _ hsame =>
      rcases haffords with hzero | ⟨hnone, -⟩
      · rw [hsome, Option.some.injEq] at hzero
        subst hzero
        exact absurd hsame hbinder
      · exact absurd (hnone.symm.trans hsome) (by simp)
    | ofLocal hnone htype _ hcookie =>
      rcases haffords with hzero | ⟨-, hspares⟩
      · exact absurd (hnone.symm.trans hzero) (by simp)
      · have hhandle : (w'.process.objects b.toNat).binder_handle = none := by
          rw [hquiet.process]
          exact hnone
        refine ⟨⟨by rw [htype]; decide, fun _ _ => ?_⟩, htype, hcookie, hspares.alive hhas⟩
        rw [hcookie]
        exact ⟨hne, hhandle⟩

/-- An object of the process is listed with a reference of its own, or it is not written. -/
theorem writeObject.balances {obj : FlatBinderObject} (h : Counted c) (hhas : Has t c.world.process)
    (hclear : ClearFor c.parcel (FLAT_SIZE + m))
    (hobj : obj.binder ≠ 0 → IsOwn c.world obj ∧ obj.type = BINDER_TYPE_BINDER ∧ obj.cookie = b ∧
      (t.owned b.toNat = true → 0 < t.strong b.toNat) ∧
      t.strong b.toNat + 1 + t.weak b.toNat < 2 ^ 20) :
    wp (writeObject (ParcelProcess.calls (knot (n + 1)) o).toOutside obj false)
      (fun r c' => Counted c' ∧ Balanced c c' ∧ (r = STATUS_OK → ClearFor c'.parcel m)) E c := by
  apply writeObject.spec h.isLocal
  · intro r c' hne refused
    obtain ⟨h', hbalanced⟩ := h.unchanged refused.isLocal
      (refused.listedObjects h.isLocal hclear.less) fun t hhas => by
        rw [refused.world]
        exact .refl hhas
    exact ⟨h', hbalanced, fun hok => absurd hok hne⟩
  · intro hlisted
    have hbinder := hlisted.resolve_left (by decide)
    obtain ⟨hown, htype, rfl, halive, hroom⟩ := hobj hbinder
    obtain ⟨hcookie, hhandle⟩ := hown.own htype hbinder
    unfold acquire_object
    rw [if_pos htype, if_pos hbinder]
    apply wp_imp (ParcelProcess.incStrong.adds hcookie hhas hhandle halive hroom)
    intro _ w hc c' hadded hworld
    have hlist := hadded.listedObjects h.isLocal hclear.less
    rw [if_pos rfl] at hlist
    rw [← hworld] at hc
    have hentries : ∀ a, entries c' a = entries c a + Process.once obj.cookie.toNat a := by
      intro a
      rw [← hown.of_own htype hbinder a, entries_local h.isLocal, entries_local hadded.isLocal]
      unfold objectsOf
      rw [hlist, hc.isOf, List.countP_append, List.countP_singleton]
    have hstrong := fun a => ParcelProcess.strong_addStrong (t := t) a obj.cookie.toNat
    have hbalanced : Balanced c c' := balanced_of_totals hadded.isLocal hhas hc fun a => by
      rw [hstrong, hentries]
      omega
    refine ⟨⟨hadded.isLocal, fun other hmem => ?_, ⟨_, hc.counts.has⟩,
      hbalanced.enough h.isLocal h.enough⟩, hbalanced, fun _ => hadded.clear h.isLocal hclear⟩
    rw [hlist] at hmem
    rcases List.mem_append.mp hmem with hold | hnew
    · exact (h.own other hold).changed hc
    · rw [List.mem_singleton.mp hnew]
      exact hown.changed hc
  · intro hno c' hadded hworld
    have hlist := hadded.listedObjects h.isLocal hclear.less
    rw [if_neg (by decide), List.append_nil] at hlist
    obtain ⟨h', hbalanced⟩ := h.unchanged hadded.isLocal hlist fun t hhas => by
      rw [hworld]
      exact .refl hhas
    exact ⟨h', hbalanced, fun _ => hadded.clear h.isLocal hclear⟩

/-- A binder is written as an entry with a reference of its own, or as none. -/
theorem writeStrongBinder.balances (h : Counted c) (haffords : Affords c.world b 1)
    (hclear : ClearFor c.parcel (FLAT_SIZE + 4)) :
    wp (writeStrongBinder (ParcelProcess.calls (knot (n + 1)) o) b)
      (fun _ c' => Counted c' ∧ Balanced c c') E c := by
  obtain ⟨t, hhas⟩ := h.counts
  unfold writeStrongBinder flattenBinder
  rw [wp_bind]
  apply wp_indeterminateObject
  intro old
  rw [wp_bind, wp_outside]
  apply wp_imp (flatOf.affords (w := c.world) haffords hhas)
  rintro obj w ⟨hquiet, hobj⟩
  obtain ⟨h₁, hbalanced₁⟩ := h.unchanged (d := (c.mapHeap (Heap.nextLocals 6)).setWorld w)
    h.isLocal rfl fun t hhas => hquiet.changed hhas
  rw [wp_bind]
  apply wp_imp (writeObject.balances h₁ (hquiet.changed hhas).counts.has hclear hobj)
  rintro r c₂ ⟨h₂, hbalanced₂, hclear₂⟩
  have hboth := hbalanced₁.trans hbalanced₂
  split
  · exact ⟨h₂, hboth⟩
  · rename_i hok
    apply wp_imp (finishFlattenBinder.balances h₂ (hclear₂ (not_not.mp hok)))
    rintro _ c₃ ⟨h₃, hbalanced₃⟩
    exact ⟨h₃, hboth.trans hbalanced₃⟩

/-- The first objects of a list and the rest of it. -/
theorem listedObjects_split {p : Parcel} {k : Nat} (hk : k ≤ p.mObjectsSize) :
    listedObjects p = (p.table.take k).map p.flatAt ++ flats p k (p.mObjectsSize - k) := by
  have hsplit : retained p = p.table.take k ++ window p.table k (p.mObjectsSize - k) := by
    unfold retained window
    rw [← List.take_add]
    congr 1
    omega
  unfold listedObjects
  rw [hsplit, List.map_append, flats_eq_map]

/-- The list of a parcel that is cut, and what it lost. -/
theorem Shrunk.listedObjects {n q k : Nat} {W : Type} {d d' : Ctx W} (s : Shrunk d d' n q k)
    (hk : k ≤ d.parcel.mObjectsSize) :
    listedObjects d.parcel =
      listedObjects d'.parcel ++ flats d.parcel k (d.parcel.mObjectsSize - k) := by
  have hcells := s.cells
  have hlist : retained d'.parcel = d.parcel.table.take k := by
    unfold retained
    apply List.ext_getElem?
    intro i
    rw [s.objects, List.getElem?_take, List.getElem?_take]
    split
    · rename_i hi
      exact s.table i hi
    · rfl
  rw [listedObjects_split hk]
  unfold Parcel.listedObjects
  rw [hlist]
  congr 1
  apply List.map_congr_left
  intro o _
  unfold flatAt
  rw [hcells]

/-- Where entries are dropped, each gives its reference back. -/
theorem Counted.dropped {d : Ctx ParcelProcess} {objs : List FlatBinderObject}
    (h : Counted c) (l : Local d.parcel)
    (hlist : ∀ obj ∈ listedObjects d.parcel, obj ∈ listedObjects c.parcel)
    (hhas : Has t c.world.process) (hc : Changed t' c.world d.world)
    (hcount : ∀ a, t'.strong a + objectsOf c.world objs a = t.strong a)
    (hsplit : ∀ a, entries c a = objectsOf c.world (listedObjects d.parcel) a +
      objectsOf c.world objs a) : Counted d ∧ Balanced c d := by
  have hbalanced : Balanced c d := balanced_of_totals l hhas hc fun a => by
    have hgone := hcount a
    have hleft := hsplit a
    have hentries : entries d a = objectsOf c.world (listedObjects d.parcel) a := by
      rw [entries_local l, hc.objectsOf]
    omega
  refine ⟨⟨l, fun obj hmem => (h.own obj (hlist obj hmem)).changed hc, ⟨t', hc.counts.has⟩,
    hbalanced.enough h.isLocal h.enough⟩, hbalanced⟩

/-- Objects of a counted parcel can be released. -/
theorem Counted.releases {objs : List FlatBinderObject} (h : Counted c) (hclose : ClosesQuietly o)
    (hhas : Has t c.world.process) (hsub : ∀ obj ∈ objs, obj ∈ listedObjects c.parcel)
    (hfew : ∀ a, objectsOf c.world objs a ≤ entries c a) :
    wp (releaseAll (ParcelProcess.calls (knot (n + 1)) o).toOutside objs) (fun _ w' =>
      ∃ t', Changed t' c.world w' ∧
        ∀ a, t'.strong a + objectsOf c.world objs a = t.strong a) E c.world := by
  apply ParcelProcess.releaseAll.gives_back hclose (fun obj hmem => h.own obj (hsub obj hmem)) hhas
  intro a
  rw [← hhas.strongCount]
  exact Nat.le_trans (hfew a) (h.enough a)

/-- A new size drops the entries that start behind it, if it drops any. -/
theorem setDataSize.balances (h : Counted c) (hclose : ClosesQuietly o) (size : Nat) :
    wp (setDataSize (ParcelProcess.calls (knot (n + 1)) o).toOutside size)
      (fun _ c' => Counted c' ∧ Balanced c c') E c := by
  obtain ⟨t, hhas⟩ := h.counts
  have l := h.isLocal
  unfold setDataSize
  rw [wp_ite]
  refine ⟨fun _ => h.unchanged l rfl fun _ hhas => .refl hhas, fun _ => ?_⟩
  rw [wp_bind]
  apply continueWrite.spec l
  · intro r c₁ hne k
    rw [if_neg hne]
    refine h.unchanged k.isLocal (k.listedObjects l) fun _ hhas => ?_
    rw [k.world]
    exact .refl hhas
  · intro c₁ k hin hgrown _
    have hlist := k.listedObjects l
    rw [if_pos rfl]
    refine h.unchanged (d := c₁.mapParcel fun p => { p with mDataSize := size })
      (k.isLocal.withSize ?_ hin) hlist fun _ hhas => ?_
    · rw [k.pos]
      exact Nat.le_trans l.pos hgrown
    · show Changed _ c.world c₁.world
      rw [k.world]
      exact .refl hhas
  · intro hin
    have hsub : (dropped c.parcel size).Sublist (listedObjects c.parcel) := by
      rw [listedObjects_split (kept_le c.parcel size)]
      exact List.sublist_append_right _ _
    apply wp_imp (h.releases hclose hhas (fun obj hmem => hsub.subset hmem) fun a => by
      rw [entries_local l]
      exact hsub.countP_le)
    rintro _ w ⟨t', hc, hcount⟩ c₁ s hworld
    have hlist := s.listedObjects (kept_le c.parcel size)
    rw [if_pos rfl]
    rw [← hworld] at hc
    refine h.dropped (d := c₁.mapParcel fun p => { p with mDataSize := size })
      (s.isLocal.withSize ?_ ?_) (fun obj hmem => ?_) hhas hc hcount fun a => ?_
    · rw [s.pos]
      exact Nat.min_le_right _ _
    · rw [s.capacity]
      exact hin
    · rw [hlist]
      exact List.mem_append_left _ hmem
    · rw [entries_local l, hlist]
      exact List.countP_append

/-- A parcel that is freed has no entries, and its binders have their references back. -/
theorem freeData.balances (h : Counted c) (hclose : ClosesQuietly o) :
    wp (freeData (ParcelProcess.calls (knot (n + 1)) o).toOutside)
      (fun _ c' => (Counted c' ∧ Balanced c c') ∧ ∀ a, entries c' a = 0) E c := by
  obtain ⟨t, hhas⟩ := h.counts
  have hreverse : ∀ a, objectsOf c.world (listedObjects c.parcel).reverse a = entries c a := by
    intro a
    rw [entries_local h.isLocal]
    exact List.countP_reverse
  have hsub : ∀ obj ∈ (listedObjects c.parcel).reverse, obj ∈ listedObjects c.parcel :=
    fun _ hmem => List.mem_reverse.mp hmem
  have hrelease := h.releases (E := fun e => E (.inCall e)) (n := n) hclose hhas hsub
    fun a => Nat.le_of_eq (hreverse a)
  apply wp_imp (freeData.frees h.isLocal hrelease)
  rintro _ c' ⟨⟨t', hc, hcount⟩, hempty, -⟩
  have hnone : listedObjects c'.parcel = [] := by
    rw [hempty]
    rfl
  refine ⟨h.dropped (by rw [hempty]; exact empty_local) (fun obj hmem => ?_) hhas hc hcount
    fun a => ?_, fun a => ?_⟩
  · rw [hnone] at hmem
    cases hmem
  · rw [hnone, hreverse]
    exact (Nat.zero_add _).symm
  · exact entries_empty hempty a

end Parcel

end system_binder
