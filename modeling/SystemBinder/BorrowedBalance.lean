-- The strong counts beside the objects that a parcel lists, over a buffer of the driver too. Where
-- a copy is taken, a binder of the process gets one reference for each object of its own that is
-- kept. All calls that list binders and take them off the list are in balance then.
import SystemBinder.ParcelBalance

open prog memory

namespace system_binder

/-! ## What is called where a copy is taken -/

namespace ParcelProcess

open Process (Totals Has once knot)
open Parcel (forEach closeFile)

variable {w w' : ParcelProcess} {t t' t'' : Totals} {n : Nat} {o : ParcelEnv}
  {obj : FlatBinderObject} {objs : List FlatBinderObject} {E : Fault → Prop} {k k' : Nat → Nat}

/-- A buffer that is handed back is no business of the binders of the process. What proxies were
held for until the driver has the commands may go with it. -/
def FreesElsewhere (o : ParcelEnv) : Prop :=
  ∀ address w t, Has t w.process → wp (o.freeBuffer address) (fun _ w' => ∃ t', Changed t' w w' ∧
    ∀ a, (w.process.objects a).binder_handle = none →
      t'.strong a = t.strong a ∧ t'.weak a = t.weak a ∧ t'.owned a = t.owned a) never w

/-- Each binder of the process has `k` strong references more, and none of them died. -/
def Raised (w : ParcelProcess) (t t' : Totals) (k : Nat → Nat) : Prop :=
  ∀ a, (w.process.objects a).binder_handle = none →
    t'.strong a = t.strong a + k a ∧ t'.weak a = t.weak a ∧
      ((t.owned a = true → 0 < t.strong a) → t'.owned a = true → 0 < t'.strong a)

theorem Raised.refl : Raised w t t fun _ => 0 := fun _ _ => ⟨rfl, rfl, id⟩

theorem Raised.trans (h : Raised w t t' k) (h' : Raised w t' t'' k') :
    Raised w t t'' fun a => k a + k' a := by
  intro a hown
  obtain ⟨hstrong, hweak, halive⟩ := h a hown
  obtain ⟨hstrong', hweak', halive'⟩ := h' a hown
  exact ⟨by rw [hstrong', hstrong, Nat.add_assoc], hweak'.trans hweak,
    fun hheld => halive' (halive hheld)⟩

theorem Raised.changed (h : Raised w t t' k) (hc : Changed t'' w' w) : Raised w' t t' k := by
  intro a hown
  rw [← hc.handle] at hown
  exact h a hown

theorem raised_addStrong (b : Nat) : Raised w t (t.addStrong b) (once b) := by
  intro a _
  refine ⟨strong_addStrong a b, ?_, fun hheld howned => ?_⟩
  · unfold Totals.addStrong
    rfl
  · rw [strong_addStrong]
    unfold once
    by_cases ha : a = b
    · rw [if_pos ha]
      omega
    · have hold : t.owned a = true := by
        rwa [Totals.addStrong, Totals.owned_setStrong_ne _ _ ha] at howned
      have := hheld hold
      omega

/-- The binders of the process among the objects have references to spare for all of them. -/
def SparesAll (t : Totals) (w : ParcelProcess) (objs : List FlatBinderObject) : Prop :=
  ∀ obj ∈ objs, obj.type = BINDER_TYPE_BINDER → obj.binder ≠ 0 →
    (t.owned obj.cookie.toNat = true → 0 < t.strong obj.cookie.toNat) ∧
      t.strong obj.cookie.toNat + objectsOf w objs obj.cookie.toNat + t.weak obj.cookie.toNat <
        2 ^ 20

/-- An object of the process that is acquired gives its binder a reference. -/
theorem acquire_object.adds (hobj : IsOwn w obj) (hhas : Has t w.process)
    (hspares : SparesAll t w [obj]) :
    wp (Parcel.acquire_object (calls (knot (n + 1)) o).toOutside obj) (fun _ w' =>
      ∃ t', Changed t' w w' ∧ Raised w t t' (objectsOf w [obj])) E w := by
  have hnothing : (obj.type = BINDER_TYPE_BINDER → obj.binder = 0) →
      ∃ t', Changed t' w w ∧ Raised w t t' (objectsOf w [obj]) := by
    intro hno
    refine ⟨t, .refl hhas, fun a hown => ⟨?_, rfl, id⟩⟩
    rw [objectsOf_cons, hobj.of_none hno a]
    rfl
  unfold Parcel.acquire_object
  split
  · rename_i htype
    split
    · rename_i hbinder
      obtain ⟨hne, hown⟩ := hobj.own htype hbinder
      obtain ⟨halive, hroom⟩ := hspares obj (by simp) htype hbinder
      have hone : objectsOf w [obj] = once obj.cookie.toNat := by
        funext a
        rw [← hobj.of_own htype hbinder a, objectsOf_cons]
        exact Nat.zero_add _
      rw [hone] at hroom ⊢
      have hself : once obj.cookie.toNat obj.cookie.toNat = 1 := if_pos rfl
      rw [hself] at hroom
      apply wp_imp (incStrong.adds hne hhas hown halive hroom)
      exact fun _ w' hc => ⟨_, hc, raised_addStrong _⟩
    · rename_i hbinder
      exact hnothing fun _ => not_not.mp hbinder
  · rename_i htype
    rw [if_neg hobj.plain]
    exact hnothing fun h => absurd h htype

/-- So do some objects. -/
theorem acquireAll.adds (hobjs : ∀ obj ∈ objs, IsOwn w obj) (hhas : Has t w.process)
    (hspares : SparesAll t w objs) :
    wp (forEach (Parcel.acquire_object (calls (knot (n + 1)) o).toOutside) objs) (fun _ w' =>
      ∃ t', Changed t' w w' ∧ Raised w t t' (objectsOf w objs)) E w := by
  induction objs generalizing w t with
  | nil => exact ⟨t, .refl hhas, .refl⟩
  | cons obj objs ih =>
    have hsplit : ∀ a, objectsOf w (obj :: objs) a = objectsOf w [obj] a + objectsOf w objs a := by
      intro a
      rw [objectsOf_cons, objectsOf_cons, Nat.add_comm]
      show _ = 0 + _ + _
      rw [Nat.zero_add]
    unfold forEach
    rw [wp_bind]
    have hfirst : SparesAll t w [obj] := by
      intro other hmem htype hbinder
      rw [List.mem_singleton] at hmem
      subst hmem
      obtain ⟨halive, hroom⟩ := hspares other List.mem_cons_self htype hbinder
      rw [hsplit] at hroom
      exact ⟨halive, by omega⟩
    apply wp_imp (acquire_object.adds (hobjs obj List.mem_cons_self) hhas hfirst)
    rintro _ w₁ ⟨t₁, hc₁, hraised₁⟩
    apply wp_imp (ih (t := t₁)
      (fun other hmem => (hobjs other (List.mem_cons_of_mem _ hmem)).changed hc₁) hc₁.counts.has
      fun other hmem htype hbinder => ?_)
    · rintro _ w₂ ⟨t₂, hc₂, hraised₂⟩
      refine ⟨t₂, hc₁.trans hc₂, ?_⟩
      rw [hc₁.objectsOf] at hraised₂
      have hboth := hraised₁.trans (hraised₂.changed hc₁)
      rwa [← funext hsplit] at hboth
    · have hown := hobjs other (List.mem_cons_of_mem _ hmem)
      obtain ⟨halive, hroom⟩ := hspares other (List.mem_cons_of_mem _ hmem) htype hbinder
      obtain ⟨hstrong, hweak, hstays⟩ := hraised₁ _ (hown.own htype hbinder).2
      rw [hsplit] at hroom
      rw [hc₁.objectsOf, hstrong, hweak]
      refine ⟨?_, by omega⟩
      rw [← hstrong]
      exact hstays halive

/-- Files that are closed are no business of the binders either. -/
theorem closeAll.quiet (hclose : ClosesQuietly o) :
    wp (forEach (closeFile (calls (knot n) o).toOutside) objs) (fun _ w' => Quiet w w') E w := by
  induction objs generalizing w with
  | nil => exact ⟨rfl, rfl, rfl⟩
  | cons obj objs ih =>
    have hone : wp (closeFile (calls (knot n) o).toOutside obj) (fun _ w' => Quiet w w') E w := by
      unfold closeFile
      split
      · exact wp_mono (hclose obj.handle w) (fun _ _ h => h) fun _ h => h.elim
      · exact ⟨rfl, rfl, rfl⟩
    unfold forEach
    rw [wp_bind]
    apply wp_imp hone
    intro _ w₁ h₁
    apply wp_imp ih
    exact fun _ w₂ h₂ => ⟨h₂.process.trans h₁.process, h₂.mStability.trans h₁.mStability,
      h₂.refsAt.trans h₁.refsAt⟩

/-- A buffer that goes back with all its files. -/
theorem handBack.elsewhere (hclose : ClosesQuietly o) (hfree : FreesElsewhere o)
    (hhas : Has t w.process) (objs : List FlatBinderObject) (address : Nat) :
    wp (do
      forEach (closeFile (calls (knot n) o).toOutside) objs
      o.freeBuffer address) (fun _ w' => ∃ t', Changed t' w w' ∧ Raised w t t' fun _ => 0) E w := by
  rw [wp_bind]
  apply wp_imp (closeAll.quiet hclose)
  intro _ w₁ hquiet
  have hc := hquiet.changed hhas
  apply wp_mono (hfree address w₁ t hc.counts.has)
  · rintro _ w₂ ⟨t₂, hc₂, hsame⟩
    refine ⟨t₂, hc.trans hc₂, fun a hown => ?_⟩
    rw [← hc.handle] at hown
    obtain ⟨hstrong, hweak, howned⟩ := hsame a hown
    refine ⟨hstrong, hweak, fun hheld h => ?_⟩
    rw [hstrong]
    exact hheld (howned ▸ h)
  · exact fun _ h => h.elim

/-- No handle is among objects of the process. -/
theorem objectsOf_of_proxy {a : Nat} {handle : BitVec 32} (hobjs : ∀ obj ∈ objs, IsOwn w obj)
    (hsome : (w.process.objects a).binder_handle = some handle) : objectsOf w objs a = 0 := by
  apply List.countP_eq_zero.mpr
  intro obj hmem hof
  unfold IsOf at hof
  rw [hsome] at hof
  exact (hobjs obj hmem).plain (beq_iff_eq.mp ((Bool.and_eq_true _ _).mp hof).1)

end ParcelProcess

namespace Parcel

open Process (Totals Has knot)
open ParcelProcess (Changed Quiet IsOwn ClosesQuietly FreesElsewhere Raised SparesAll objectsOf)

variable {c c' : Ctx ParcelProcess} {t t' : Totals} {n m k : Nat} {o : ParcelEnv}
  {b : BitVec 64} {E : Fault → Prop}

/-! ## A buffer of the driver -/

/-- A parcel over a buffer of the driver, all of whose offsets were accepted. -/
structure OnLoan (c : Ctx ParcelProcess) : Prop where
  borrowed : Borrowed c.parcel
  listed : c.parcel.mObjectsSize = c.parcel.mObjectsCapacity
  counts : ∃ t, Has t c.world.process

/-- The objects are of the process, and its binders have references to spare for all of them. -/
def Acquirable (w : ParcelProcess) (objs : List FlatBinderObject) : Prop :=
  ∀ obj ∈ objs, IsOwn w obj ∧ (obj.type = BINDER_TYPE_BINDER → obj.binder ≠ 0 →
    Spares w obj.cookie.toNat (objectsOf w objs obj.cookie.toNat))

theorem Acquirable.spares {w : ParcelProcess} {objs : List FlatBinderObject}
    (h : Acquirable w objs) (hhas : Has t w.process) : SparesAll t w objs :=
  fun obj hmem htype hbinder => ((h obj hmem).2 htype hbinder).alive hhas

theorem Acquirable.quiet {w w' : ParcelProcess} {objs : List FlatBinderObject}
    (h : Acquirable w objs) (hquiet : Quiet w w') : Acquirable w' objs := by
  have hprocess := hquiet.process
  intro obj hmem
  obtain ⟨hown, hspares⟩ := h obj hmem
  have hsame : objectsOf w' = objectsOf w := by
    funext objs a
    unfold objectsOf ParcelProcess.IsOf
    rw [hprocess]
  refine ⟨⟨hown.plain, ?_⟩, ?_⟩
  · rw [hprocess]
    exact hown.own
  · unfold Spares
    rw [hprocess, hsame]
    exact hspares

theorem Borrowed.lent {p : Parcel} (b : Borrowed p) : p.mOwner ≠ none := by
  rw [b.owner]
  exact Option.some_ne_none _

theorem OnLoan.undisturbed (h : OnLoan c) {a : Nat} (hu : Undisturbed c a) :
    (c.world.process.objects a).binder_handle = none :=
  hu.resolve_left h.borrowed.lent

theorem entries_borrowed (h : Borrowed c.parcel) (a : Nat) : entries c a = 0 :=
  if_neg h.lent

/-- Where the parcel gets entries of its own, each with a reference. -/
theorem OnLoan.balanced {f : Nat → Nat} (h : OnLoan c) (hhas : Has t c.world.process)
    (hc : Changed t' c.world c'.world) (hraised : Raised c.world t t' f)
    (hentries : ∀ a, entries c' a = f a) : Balanced c c' where
  counts a hu := by
    obtain ⟨hstrong, -, -⟩ := hraised a (h.undisturbed hu)
    unfold strongOf
    rw [hhas.strongCount, hc.counts.has.strongCount, hstrong, hentries a,
      entries_borrowed h.borrowed]
    rfl
  undisturbed a hu := .inr (by
    rw [hc.handle]
    exact h.undisturbed hu)

/-- Nothing came of a growth but an error. -/
theorem OnLoan.refused (h : OnLoan c) (hno : OutOfMemory c c') : OnLoan c' ∧ Balanced c c' := by
  obtain ⟨t, hhas⟩ := h.counts
  have hworld := hno.world
  have hborrowed : Borrowed c'.parcel := by
    rw [hno.parcel]
    have d := h.borrowed.disowned
    exact ⟨h.borrowed.owner, h.borrowed.data, h.borrowed.full,
      ⟨rfl, d.pos, d.size, d.capacity, d.data, d.objects, d.table, d.offsets⟩⟩
  have hsame : Changed t c.world c'.world := by
    rw [hworld]
    exact .refl hhas
  refine ⟨⟨hborrowed, ?_, t, hsame.counts.has⟩,
    h.balanced hhas hsame .refl (entries_borrowed hborrowed)⟩
  rw [hno.parcel]
  exact h.listed

theorem listedDown_eq (p : Parcel) (hk : k ≤ p.mObjectsSize) :
    listedDown p k = ((listedObjects p).take k).reverse := by
  unfold listedDown listedObjects retained
  rw [flats_eq_map, ← List.map_take, List.take_take, Nat.min_eq_left hk]
  rfl

/-- The objects that are kept get their references, and the buffer goes back. -/
theorem OnLoan.possesses (hclose : ClosesQuietly o) (hfree : FreesElsewhere o)
    (hhas : Has t c.world.process) (hk : k ≤ c.parcel.mObjectsSize)
    (hacquire : Acquirable c.world ((listedObjects c.parcel).take k)) :
    wp (possess (ParcelProcess.calls (knot (n + 1)) o).toOutside c.parcel k) (fun _ w' =>
      ∃ t', Changed t' c.world w' ∧
        Raised c.world t t' (objectsOf c.world ((listedObjects c.parcel).take k))) E c.world := by
  have hreverse : objectsOf c.world (listedDown c.parcel k) =
      objectsOf c.world ((listedObjects c.parcel).take k) := by
    funext a
    rw [listedDown_eq _ hk]
    exact List.countP_reverse
  have hmem : ∀ obj ∈ listedDown c.parcel k, obj ∈ (listedObjects c.parcel).take k := by
    intro obj hobj
    rw [listedDown_eq _ hk] at hobj
    exact List.mem_reverse.mp hobj
  have hspares : SparesAll t c.world (listedDown c.parcel k) := by
    intro obj hobj
    rw [hreverse]
    exact hacquire.spares hhas obj (hmem obj hobj)
  unfold possess
  rw [wp_bind]
  apply wp_imp (ParcelProcess.acquireAll.adds (fun obj hobj => (hacquire obj (hmem obj hobj)).1)
    hhas hspares)
  rintro _ w₁ ⟨t₁, hc₁, hraised₁⟩
  apply wp_imp (ParcelProcess.handBack.elsewhere hclose hfree hc₁.counts.has _ _)
  rintro _ w₂ ⟨t₂, hc₂, hraised₂⟩
  refine ⟨t₂, hc₁.trans hc₂, ?_⟩
  have hboth := hraised₁.trans (hraised₂.changed hc₁)
  rwa [hreverse] at hboth

/-- The parcel has the objects that it kept in memory of its own, each with its reference. -/
theorem OnLoan.counted {d : Ctx ParcelProcess} {objs : List FlatBinderObject} (h : OnLoan c)
    (l : Local d.parcel) (hlist : listedObjects d.parcel = objs)
    (hown : ∀ obj ∈ objs, IsOwn c.world obj) (hhas : Has t c.world.process)
    (hc : Changed t' c.world d.world) (hraised : Raised c.world t t' (objectsOf c.world objs)) :
    Counted d ∧ Balanced c d := by
  have hentries : ∀ a, entries d a = objectsOf c.world objs a := by
    intro a
    rw [entries_local l, hlist, hc.objectsOf]
  refine ⟨⟨l, fun obj hmem => ?_, ⟨t', hc.counts.has⟩, fun a => ?_⟩,
    h.balanced hhas hc hraised hentries⟩
  · rw [hlist] at hmem
    exact (hown obj hmem).changed hc
  · rw [hentries]
    cases hhandle : (c.world.process.objects a).binder_handle with
    | some handle =>
      rw [ParcelProcess.objectsOf_of_proxy hown hhandle]
      exact Nat.zero_le _
    | none =>
      obtain ⟨hstrong, -, -⟩ := hraised a hhandle
      unfold strongOf
      rw [hc.counts.has.strongCount, hstrong]
      exact Nat.le_add_left _ _

/-! ### What a copy lists -/

section

variable {W : Type} {d d' : Ctx W}

theorem Borrowed.inside {p : Parcel} (b : Borrowed p) :
    ∀ o ∈ retained p, o + FLAT_SIZE ≤ p.mDataSize := by
  intro o ho
  have := b.disowned.inside o ho
  exact b.full ▸ this

theorem Rehoused.listedObjects {q : Nat} (b : Borrowed d.parcel) (r : Rehoused d d' q) :
    listedObjects d'.parcel = listedObjects d.parcel :=
  listedObjects_same r.list fun o ho => r.bytes o _ (b.inside o ho)

/-- The next `q` bytes go over no object of the copy either. -/
theorem Rehoused.clear {p q : Nat} (r : Rehoused d d' p) (h : ClearFor d.parcel q) :
    ClearFor d'.parcel q := by
  intro o ho
  rw [r.list] at ho
  rw [r.pos]
  exact h o ho

/-- A copy of the first bytes that cuts none of its objects lists them as they were. -/
theorem Taken.listedObjects {q : Nat} (b : Borrowed d.parcel) (hk : k ≤ d.parcel.mObjectsSize)
    (hwhole : ∀ o ∈ (retained d.parcel).take k, o + FLAT_SIZE ≤ q) (taken : Taken d d' q k) :
    listedObjects d'.parcel = (listedObjects d.parcel).take k := by
  have hlist : retained d'.parcel = (retained d.parcel).take k := by
    unfold retained
    rw [taken.table, taken.objectsSize, List.take_take, List.take_take, Nat.min_self,
      Nat.min_eq_left hk]
  unfold Parcel.listedObjects
  rw [hlist, ← List.map_take]
  apply List.map_congr_left
  intro o ho
  unfold flatAt
  rw [taken.cells o _ (Nat.le_min.mpr
    ⟨b.inside o (List.mem_of_mem_take ho), hwhole o ho⟩)]

theorem Taken.isLocal {q : Nat} (b : Borrowed d.parcel) (hq : q ≤ INT32_MAX)
    (hk : k ≤ d.parcel.mObjectsSize) (hpos : d.parcel.mDataPos ≤ q)
    (hwhole : ∀ o ∈ (retained d.parcel).take k, o + FLAT_SIZE ≤ q) (taken : Taken d d' q k) :
    Local d'.parcel where
  owner := taken.owner
  pos := by
    rw [taken.pos, taken.size]
    exact Nat.le_min.mpr ⟨b.pos, hpos⟩
  size := by
    rw [taken.size, taken.capacity]
    exact Nat.min_le_right _ _
  capacity := taken.capacity ▸ hq
  data := by rw [taken.length, taken.capacity]
  objects := by rw [taken.objectsSize, taken.objectsCapacity]
  table := by
    rw [taken.table, taken.objectsCapacity, List.length_take_of_le]
    exact Nat.le_trans hk b.sound.objects
  offsets i o hi ho := by
    rw [taken.objectsSize] at hi
    rw [taken.table, List.getElem?_take_of_lt hi] at ho
    rw [taken.capacity]
    apply hwhole o
    apply List.mem_iff_getElem?.mpr
    refine ⟨i, ?_⟩
    rw [List.getElem?_take_of_lt hi, getElem?_retained, if_pos (Nat.lt_of_lt_of_le hi hk), ho]

/-- Once there is room, a write of an object goes on as one that began there. -/
theorem writeObject_of_room {x : Outside W} {val : FlatBinderObject} {nullMetaData : Bool}
    (hroom : sz (d.parcel.mDataPos + FLAT_SIZE) ≤ d.parcel.mDataCapacity) :
    writeObject x val nullMetaData d =
      listWithRoom x (decide (d.parcel.mObjectsSize < d.parcel.mObjectsCapacity)) val nullMetaData
        d := by
  show (if sz (d.parcel.mDataPos + FLAT_SIZE) ≤ d.parcel.mDataCapacity then listWithRoom _ _ _ _
    else _ : Prog (Ctx W) Fault Int) d = _
  rw [if_pos hroom]

end

/-! ### The steps -/

/-- A parcel whose binders have a reference for each entry of their own, or one over a buffer of the
driver. -/
def Steady (c : Ctx ParcelProcess) : Prop := Counted c ∨ OnLoan c

/-- An object that does not fit in the buffer is written into a copy. -/
theorem OnLoan.writesObject {obj : FlatBinderObject} (h : OnLoan c) (hclose : ClosesQuietly o)
    (hfree : FreesElsewhere o) (hhas : Has t c.world.process)
    (hfull : c.parcel.mDataCapacity < c.parcel.mDataPos + FLAT_SIZE)
    (hclear : ClearFor c.parcel (FLAT_SIZE + m))
    (hacquire : Acquirable c.world (listedObjects c.parcel))
    (hobj : obj.binder ≠ 0 → IsOwn c.world obj ∧ obj.type = BINDER_TYPE_BINDER ∧ obj.cookie = b ∧
      (t.owned b.toNat = true → 0 < t.strong b.toNat) ∧
      t.strong b.toNat + (objectsOf c.world (listedObjects c.parcel) b.toNat + 1) +
        t.weak b.toNat < 2 ^ 20) :
    wp (writeObject (ParcelProcess.calls (knot (n + 1)) o).toOutside obj false) (fun r c' =>
      Steady c' ∧ Balanced c c' ∧ (r = STATUS_OK → Counted c' ∧ ClearFor c'.parcel m)) E c := by
  have hpos := h.borrowed.pos
  have hfill := h.borrowed.full
  have hgrow := flat_le_growthSize c.parcel.mDataSize
  have hsz : sz (c.parcel.mDataPos + FLAT_SIZE) = c.parcel.mDataPos + FLAT_SIZE :=
    h.borrowed.sound.sz_pos (by decide)
  have hall : (listedObjects c.parcel).take c.parcel.mObjectsSize = listedObjects c.parcel :=
    List.take_of_length_le (length_listedObjects c.parcel)
  unfold writeObject
  rw [wp_bind, wp_thisParcel]
  dsimp only
  rw [if_neg (by omega), wp_bind]
  apply growData.usable (.inr h.borrowed) (by decide) (by decide)
  · unfold FLAT_SIZE at hgrow
    omega
  · intro _
    rw [if_neg (by decide)]
    exact ⟨.inr h, .refl c, fun hok => absurd hok (by decide)⟩
  · intro c₁ hno _
    obtain ⟨h₁, hbalanced⟩ := h.refused hno
    rw [if_neg (by decide)]
    exact ⟨.inr h₁, hbalanced, fun hok => absurd hok (by decide)⟩
  · intro _
    unfold rehouse
    rw [if_pos h.borrowed.isSome]
    apply wp_imp (OnLoan.possesses hclose hfree hhas (Nat.le_refl _) (hall.symm ▸ hacquire))
    rw [hall]
    rintro _ w ⟨t₁, hc₁, hraised₁⟩ c₁ moved rfl
    obtain ⟨h₁, hbalanced₁⟩ := h.counted moved.isLocal (moved.listedObjects h.borrowed)
      (fun other hmem => (hacquire other hmem).1) hhas hc₁ hraised₁
    have hroom : sz (c₁.parcel.mDataPos + FLAT_SIZE) ≤ c₁.parcel.mDataCapacity := by
      rw [moved.pos, hsz, moved.capacity]
      omega
    have henough : decide (c.parcel.mObjectsSize < c.parcel.mObjectsCapacity) =
        decide (c₁.parcel.mObjectsSize < c₁.parcel.mObjectsCapacity) := by
      rw [moved.objectsSize, moved.objectsCapacity, if_pos h.borrowed.isSome, ← h.listed]
    have hput : wp (writeObject (ParcelProcess.calls (knot (n + 1)) o).toOutside obj false)
        (fun r c' => Steady c' ∧ Balanced c c' ∧
          (r = STATUS_OK → Counted c' ∧ ClearFor c'.parcel m)) E c₁ := by
      apply wp_imp (writeObject.balances (b := b) h₁ hc₁.counts.has (moved.clear hclear)
        fun hbinder => ?_)
      · rintro r c₂ ⟨h₂, hbalanced₂, hclear₂⟩
        exact ⟨.inl h₂, hbalanced₁.trans hbalanced₂, fun hok => ⟨h₂, hclear₂ hok⟩⟩
      · obtain ⟨hown, htype, hcookie, halive, hleft⟩ := hobj hbinder
        obtain ⟨hstrong, hweak, hstays⟩ := hraised₁ b.toNat (hcookie ▸ (hown.own htype hbinder).2)
        exact ⟨hown.changed hc₁, htype, hcookie, hstays halive, by omega⟩
    rw [if_pos rfl, henough]
    unfold wp at hput ⊢
    rwa [writeObject_of_room hroom] at hput

/-- A binder that does not fit in the buffer is written into a copy. -/
theorem OnLoan.writesStrongBinder (h : OnLoan c) (hclose : ClosesQuietly o)
    (hfree : FreesElsewhere o) (hfull : c.parcel.mDataCapacity < c.parcel.mDataPos + FLAT_SIZE)
    (hclear : ClearFor c.parcel (FLAT_SIZE + 4))
    (hacquire : Acquirable c.world (listedObjects c.parcel))
    (haffords : Affords c.world b (objectsOf c.world (listedObjects c.parcel) b.toNat + 1)) :
    wp (writeStrongBinder (ParcelProcess.calls (knot (n + 1)) o) b)
      (fun _ c' => Steady c' ∧ Balanced c c') E c := by
  obtain ⟨t, hhas⟩ := h.counts
  unfold writeStrongBinder flattenBinder
  rw [wp_bind]
  apply wp_indeterminateObject
  intro old
  rw [wp_bind, wp_outside]
  apply wp_imp (flatOf.affords (w := c.world) haffords hhas)
  rintro obj w ⟨hquiet, hobj⟩
  have hc := hquiet.changed hhas
  have h₁ : OnLoan ((c.mapHeap (Heap.nextLocals 6)).setWorld w) :=
    ⟨h.borrowed, h.listed, t, hc.counts.has⟩
  have hbalanced₁ : Balanced c ((c.mapHeap (Heap.nextLocals 6)).setWorld w) :=
    h.balanced hhas hc .refl (entries_borrowed h.borrowed)
  rw [wp_bind]
  apply wp_imp (h₁.writesObject (b := b) (m := 4) hclose hfree hc.counts.has hfull hclear
    (hacquire.quiet hquiet) fun hbinder => ?_)
  · rintro r c₂ ⟨h₂, hbalanced₂, hok₂⟩
    have hboth := hbalanced₁.trans hbalanced₂
    split
    · exact ⟨h₂, hboth⟩
    · rename_i hok
      obtain ⟨hcounted, hclear₂⟩ := hok₂ (not_not.mp hok)
      apply wp_imp (finishFlattenBinder.balances hcounted hclear₂)
      rintro _ c₃ ⟨h₃, hbalanced₃⟩
      exact ⟨.inl h₃, hboth.trans hbalanced₃⟩
  · show _ ∧ _ ∧ _ ∧ _ ∧ t.strong b.toNat + (objectsOf w (listedObjects c.parcel) b.toNat + 1) +
      t.weak b.toNat < 2 ^ 20
    rw [hc.objectsOf]
    exact hobj hbinder

/-- The buffer goes back with its files, and its references are the driver's. -/
theorem OnLoan.frees (h : OnLoan c) (hclose : ClosesQuietly o) (hfree : FreesElsewhere o) :
    wp (freeData (ParcelProcess.calls (knot (n + 1)) o).toOutside)
      (fun _ c' => c'.parcel = empty ∧ Counted c' ∧ Balanced c c') E c := by
  obtain ⟨t, hhas⟩ := h.counts
  have hback := ParcelProcess.handBack.elsewhere (n := n + 1) (E := fun e => E (.inCall e))
    hclose hfree hhas (listedDown c.parcel c.parcel.mObjectsSize) c.parcel.address
  rw [wp_bind] at hback
  unfold freeData freeDataNoInit initState
  rw [wp_bind, wp_bind, wp_thisParcel, h.borrowed.owner]
  apply callOwner.spec h.borrowed.whole
  apply wp_imp hback
  intro _ w hw
  apply wp_imp hw
  rintro _ w' ⟨t', hc, hraised⟩
  exact ⟨rfl, h.counted (d := ⟨empty, c.heap, w'⟩) empty_local (rfl : listedObjects empty = [])
    (fun _ hmem => by cases hmem) hhas hc hraised⟩

/-- What a new size keeps of a buffer of the driver stays whole, and so does the position. -/
def KeepsWhole (p : Parcel) (size : Nat) : Prop :=
  p.mDataPos ≤ size ∧ ∀ o ∈ (retained p).take (kept p size), o + FLAT_SIZE ≤ size

/-- A new size takes a copy with the first objects, each with a reference. -/
theorem OnLoan.setsDataSize (h : OnLoan c) (hclose : ClosesQuietly o) (hfree : FreesElsewhere o)
    (size : Nat) (hcall : 0 < size → size ≤ INT32_MAX → KeepsWhole c.parcel size ∧
      Acquirable c.world ((listedObjects c.parcel).take (kept c.parcel size))) :
    wp (setDataSize (ParcelProcess.calls (knot (n + 1)) o).toOutside size)
      (fun _ c' => Steady c' ∧ Balanced c c') E c := by
  obtain ⟨t, hhas⟩ := h.counts
  have hk := kept_le c.parcel size
  unfold setDataSize
  rw [wp_ite]
  refine ⟨fun _ => ⟨.inr h, .refl c⟩, fun hle => ?_⟩
  have hin := Nat.le_of_not_lt hle
  rw [wp_bind]
  by_cases h0 : size = 0
  · subst h0
    unfold continueWrite
    rw [if_neg hle]
    simp only [wp_bind, wp_thisParcel]
    rw [countKept.spec h.borrowed.sound.objects, if_pos h.borrowed.isSome]
    unfold continueOwned
    rw [if_pos rfl, wp_bind]
    apply wp_imp (h.frees hclose hfree)
    rintro _ c₁ ⟨hempty, h₁, hbalanced₁⟩
    have hsame : (c₁.mapParcel fun p => { p with mDataSize := 0 }) = c₁ := by
      unfold Ctx.mapParcel
      rw [hempty]
      show (⟨empty, c₁.heap, c₁.world⟩ : Ctx ParcelProcess) = c₁
      rw [← hempty]
    show Steady (c₁.mapParcel _) ∧ Balanced c (c₁.mapParcel _)
    rw [hsame]
    exact ⟨.inl h₁, hbalanced₁⟩
  · obtain ⟨⟨hpos, hwhole⟩, hacquire⟩ := hcall (Nat.pos_of_ne_zero h0) hin
    apply continueWrite.spec_borrowed h.borrowed hin h0
    · intro c₁ hno _
      obtain ⟨h₁, hbalanced⟩ := h.refused hno
      rw [if_neg (by decide)]
      exact ⟨.inr h₁, hbalanced⟩
    · apply wp_imp (OnLoan.possesses hclose hfree hhas hk hacquire)
      rintro _ w ⟨t₁, hc₁, hraised₁⟩ c₁ taken rfl
      have l₁ := taken.isLocal h.borrowed hin hk hpos hwhole
      have hlist := taken.listedObjects h.borrowed hk hwhole
      rw [if_pos rfl]
      obtain ⟨h₂, hbalanced₂⟩ := h.counted (d := c₁.mapParcel fun p => { p with mDataSize := size })
        (l₁.withSize (by rw [taken.pos]; exact hpos) (Nat.le_of_eq taken.capacity.symm))
        hlist (fun obj hmem => (hacquire obj hmem).1) hhas hc₁ hraised₁
      exact ⟨.inl h₂, hbalanced₂⟩

/-! ## The calls -/

/-- The calls that list a binder in a parcel, and that take it off the list. -/
inductive BinderCall
  | writeStrongBinder (val : BitVec 64)
  | setDataSize (size : Nat)
  | freeData
deriving DecidableEq

def runBinderCall {W : Type} (x : Calls W) : BinderCall → Prog (Ctx W) Fault Unit
  | .writeStrongBinder val => do
    let _ ← writeStrongBinder x val
    pure ()
  | .setDataSize size => do
    let _ ← setDataSize x.toOutside size
    pure ()
  | .freeData => freeData x.toOutside

/-- What is written goes over no object, and is no proxy that gets a reference too many. A copy of
a buffer of the driver cuts no object, and what it keeps are objects of the process, whose binders
have references to spare. Nothing is written into the buffer. -/
def TakesItsOwn (call : BinderCall) (c : Ctx ParcelProcess) : Prop :=
  match call with
  | .writeStrongBinder val => ClearFor c.parcel (FLAT_SIZE + 4) ∧
    if c.parcel.mOwner = none then Affords c.world val 1
    else c.parcel.mDataCapacity < c.parcel.mDataPos + FLAT_SIZE ∧
      Acquirable c.world (listedObjects c.parcel) ∧
      Affords c.world val (objectsOf c.world (listedObjects c.parcel) val.toNat + 1)
  | .setDataSize size => c.parcel.mOwner = none ∨ size = 0 ∨ INT32_MAX < size ∨
    KeepsWhole c.parcel size ∧
      Acquirable c.world ((listedObjects c.parcel).take (kept c.parcel size))
  | .freeData => True

/-! ## The law -/

/-- Whatever is called, the entries stay in balance with the counts. -/
theorem runBinderCall.balances {call : BinderCall} (h : Steady c) (hclose : ClosesQuietly o)
    (hfree : FreesElsewhere o) (hcall : TakesItsOwn call c) :
    wp (runBinderCall (ParcelProcess.calls (knot (n + 1)) o) call) (fun _ c' =>
      (Steady c' ∧ Balanced c c') ∧ (call = .freeData → ∀ a, entries c' a = 0)) E c := by
  unfold runBinderCall
  unfold TakesItsOwn at hcall
  cases call with
  | writeStrongBinder val =>
    obtain ⟨hclear, hval⟩ := hcall
    rw [wp_bind]
    rcases h with h | h
    · rw [if_pos h.isLocal.owner] at hval
      apply wp_imp (writeStrongBinder.balances h hval hclear)
      exact fun _ c' hc' => ⟨⟨.inl hc'.1, hc'.2⟩, fun hfree => by cases hfree⟩
    · rw [if_neg h.borrowed.lent] at hval
      obtain ⟨hfull, hacquire, haffords⟩ := hval
      apply wp_imp (h.writesStrongBinder hclose hfree hfull hclear hacquire haffords)
      exact fun _ c' hc' => ⟨hc', fun hfree => by cases hfree⟩
  | setDataSize size =>
    rw [wp_bind]
    rcases h with h | h
    · apply wp_imp (setDataSize.balances h hclose size)
      exact fun _ c' hc' => ⟨⟨.inl hc'.1, hc'.2⟩, fun hfree => by cases hfree⟩
    · apply wp_imp (h.setsDataSize hclose hfree size fun hpos hle =>
        ((hcall.resolve_left h.borrowed.lent).resolve_left (by omega)).resolve_left (by omega))
      exact fun _ c' hc' => ⟨hc', fun hfree => by cases hfree⟩
  | freeData =>
    rcases h with h | h
    · apply wp_imp (freeData.balances h hclose)
      exact fun _ c' hc' => ⟨⟨.inl hc'.1.1, hc'.1.2⟩, fun _ => hc'.2⟩
    · apply wp_imp (h.frees hclose hfree)
      exact fun _ c' hc' => ⟨⟨.inl hc'.2.1, hc'.2.2⟩, fun _ => entries_empty hc'.1⟩

/-- A call returns, and each strong count rose by the entries that it added and fell by those that
it dropped. After a free it is what it was at the start, less what entries there were then. -/
def InBalance (start : Ctx ParcelProcess) (call : BinderCall) (c : Ctx ParcelProcess)
    (r : Except Fault (Unit × Ctx ParcelProcess)) : Prop :=
  ∃ c', r = .ok ((), c') ∧ Balanced c c' ∧ (call = .freeData → ∀ a, Undisturbed start a →
    strongOf c' a + entries start a = strongOf start a)

/-- In every run whose binders are no proxies of other handles than 0, and go over no object of the
parcel, each strong count rises and falls with the entries of its binder, over a buffer of the
driver too. -/
theorem own_binders_are_counted_as_they_are_listed (n : Nat) (o : ParcelEnv)
    (c : Ctx ParcelProcess) (calls : List BinderCall) (hclose : ClosesQuietly o)
    (hfree : FreesElsewhere o) (h : Steady c)
    (hcalls : Allowed (runBinderCall (ParcelProcess.calls (knot (n + 1)) o)) TakesItsOwn calls c) :
    Always (runBinderCall (ParcelProcess.calls (knot (n + 1)) o)) (InBalance c) calls c := by
  apply always_of_inv (fun c₁ => Steady c₁ ∧ Balanced c c₁) _ _ ⟨h, .refl c⟩ hcalls
  · rintro call c₁ ⟨h₁, hsofar⟩ hcall
    obtain ⟨_, c₂, hrun, ⟨-, hbalanced⟩, hfreed⟩ :=
      wp_never_iff.mp (runBinderCall.balances h₁ hclose hfree hcall)
    refine ⟨c₂, hrun, hbalanced, fun hend a hu => ?_⟩
    have hsum := (hsofar.trans hbalanced).counts a hu
    rw [hfreed hend] at hsum
    exact hsum
  · rintro call c₁ r c₂ ⟨h₁, hsofar⟩ hcall hrun
    obtain ⟨⟨h₂, hbalanced⟩, -⟩ :=
      (runBinderCall.balances (E := never) h₁ hclose hfree hcall).of_ok hrun
    exact ⟨h₂, hsofar.trans hbalanced⟩

instance decidableIsOwn (w : ParcelProcess) (obj : FlatBinderObject) : Decidable (IsOwn w obj) :=
  decidable_of_iff (obj.type ≠ BINDER_TYPE_HANDLE ∧ (obj.type = BINDER_TYPE_BINDER →
    obj.binder ≠ 0 →
      obj.cookie ≠ 0 ∧ (w.process.objects obj.cookie.toNat).binder_handle = none))
    ⟨fun h => ⟨h.1, h.2⟩, fun h => ⟨h.plain, h.own⟩⟩

instance decidableSpares (w : ParcelProcess) (a m : Nat) : Decidable (Spares w a m) :=
  inferInstanceAs (Decidable (_ ∧ _))

instance decidableAffords (w : ParcelProcess) (b : BitVec 64) (m : Nat) :
    Decidable (Affords w b m) := inferInstanceAs (Decidable (_ ∨ _ ∨ _ ∧ Spares w b.toNat m))

instance decidableAcquirable (w : ParcelProcess) (objs : List FlatBinderObject) :
    Decidable (Acquirable w objs) := inferInstanceAs (Decidable (∀ obj ∈ objs, IsOwn w obj ∧
      (obj.type = BINDER_TYPE_BINDER → obj.binder ≠ 0 → Spares w obj.cookie.toNat _)))

instance decidableKeepsWhole (p : Parcel) (size : Nat) : Decidable (KeepsWhole p size) :=
  inferInstanceAs (Decidable (_ ∧ ∀ o ∈ (retained p).take (kept p size), _))

instance decidableClearFor (p : Parcel) (n : Nat) : Decidable (ClearFor p n) :=
  inferInstanceAs (Decidable (∀ o ∈ retained p, _ ∨ _))

instance decidableTakesItsOwn : (call : BinderCall) → (c : Ctx ParcelProcess) →
    Decidable (TakesItsOwn call c)
  | .writeStrongBinder val, c => inferInstanceAs (Decidable (ClearFor c.parcel (FLAT_SIZE + 4) ∧
      if c.parcel.mOwner = none then Affords c.world val 1
      else _ ∧ Acquirable c.world (listedObjects c.parcel) ∧ Affords c.world val _))
  | .setDataSize size, c => inferInstanceAs (Decidable (_ ∨ _ ∨ _ ∨ KeepsWhole c.parcel size ∧
      Acquirable c.world ((listedObjects c.parcel).take (kept c.parcel size))))
  | .freeData, _ => .isTrue trivial

/-- An allocator that refuses its second request. -/
def scarce : Heap := { plenty with fresh := fun n => if n = 1 then none else some fun _ => 0xAA }

/-- A parcel over a word and a binder that came back to its process, with the position at the
end. -/
def returned : Parcel :=
  { empty with
    mData := some ⟨0, wordBytes 4 (7 : BitVec 32) ++ FlatBinderObject.toBytes
      { type := BINDER_TYPE_BINDER, flags := 0, binder := 1, cookie := 4096 }⟩
    mDataSize := 28
    mDataCapacity := 28
    mDataPos := 28
    mObjects := some ⟨1, [4]⟩
    mObjectsSize := 1
    mObjectsCapacity := 1
    mOwner := some .freeBuffer }

theorem returned_onLoan : OnLoan ⟨returned, scarce, twoBinders⟩ where
  borrowed := by
    refine ⟨rfl, rfl, rfl, rfl, by decide, by decide, by decide, rfl, by decide, rfl, ?_⟩
    intro i o hi ho
    have h0 : i = 0 := Nat.lt_one_iff.mp hi
    subst h0
    cases ho
    decide
  listed := rfl
  counts := ⟨twoTotals, twoTotals_has⟩

/-- There is no memory for the offsets at first. The next binder never had a reference, and is
dropped by the new size. -/
theorem two_binders_are_counted_as_they_are_listed :
    Always (runBinderCall (ParcelProcess.calls (knot 1) quietEnv))
      (InBalance ⟨returned, scarce, twoBinders⟩)
      [.writeStrongBinder 4096, .writeStrongBinder 12288, .setDataSize 28, .writeStrongBinder 4096,
        .writeStrongBinder 0, .freeData] ⟨returned, scarce, twoBinders⟩ :=
  own_binders_are_counted_as_they_are_listed 0 quietEnv ⟨returned, scarce, twoBinders⟩ _
    (fun _ _ => ⟨rfl, rfl, rfl⟩)
    (fun _ _ t hhas => ⟨t, .refl hhas, fun _ _ => ⟨rfl, rfl, rfl⟩⟩) (.inr returned_onLoan)
    (by decide +kernel)

/-- A proxy that is written gets two references for its entry, and keeps both when the parcel is
freed. -/
theorem a_proxy_gets_two_references : ∃ c₁ c₂ : Ctx ParcelProcess,
    runBinderCall (ParcelProcess.calls (knot 1) quietEnv) (.writeStrongBinder 8192)
      ⟨empty, plenty, twoBinders⟩ = .ok ((), c₁) ∧
    ¬Balanced ⟨empty, plenty, twoBinders⟩ c₁ ∧
    runBinderCall (ParcelProcess.calls (knot 1) quietEnv) .freeData c₁ = .ok ((), c₂) ∧
    strongOf ⟨empty, plenty, twoBinders⟩ 8192 = 1 ∧ entries c₁ 8192 = 1 ∧
    strongOf c₁ 8192 = 3 ∧ strongOf c₂ 8192 = 3 := by
  obtain ⟨u, c₁, hwrite, hentries, hstrong, hrest⟩ : ∃ (u : Unit) (c₁ : Ctx ParcelProcess),
      runBinderCall (ParcelProcess.calls (knot 1) quietEnv) (.writeStrongBinder 8192)
        ⟨empty, plenty, twoBinders⟩ = .ok (u, c₁) ∧ entries c₁ 8192 = 1 ∧ strongOf c₁ 8192 = 3 ∧
        wp (runBinderCall (ParcelProcess.calls (knot 1) quietEnv) .freeData)
          (fun _ c₂ => strongOf c₂ 8192 = 3) never c₁ := wp_never_iff.mp (by decide +kernel)
  obtain ⟨_, c₂, hfree, hkept⟩ := wp_never_iff.mp hrest
  have hone : strongOf ⟨empty, plenty, twoBinders⟩ 8192 = 1 :=
    (twoTotals_has.strongCount (b := 8192)).trans (by decide)
  refine ⟨c₁, c₂, hwrite, fun hbalanced => ?_, hfree, hone, hentries, hstrong, hkept⟩
  have hsum := hbalanced.counts 8192 (.inl rfl)
  have hnone : entries ⟨empty, plenty, twoBinders⟩ 8192 = 0 := rfl
  omega

end Parcel

end system_binder
