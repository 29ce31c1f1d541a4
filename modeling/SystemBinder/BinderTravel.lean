-- Binders and values in one Parcel: what was written in order into a fresh parcel is read back in
-- order, and what that does to the references on the binders.
import SystemBinder.HeldBinders
import SystemBinder.ParcelEnds
import SystemBinder.ProxyCommands

open prog memory

namespace system_binder.Parcel

/-! ## Values and binders -/

/-- A value, a binder or no binder. -/
inductive Item
  | value (v : Value)
  | binder (b : BitVec 64)
  | nullBinder

/-- What was read for an item. -/
inductive GotItem
  | value (got : Got)
  | binder (out : Option (BitVec 64))
deriving DecidableEq

namespace Item

/-- A binder takes its object and its level. -/
def encodedSize : Item → Nat
  | .value v => v.encodedSize
  | .binder _ | .nullBinder => FLAT_SIZE + 4

/-- What a read of the same kind must give. -/
def expected : Item → GotItem
  | .value v => .value v.expected
  | .binder b => .binder (some b)
  | .nullBinder => .binder (some 0)

end Item

def itemsSize (items : List Item) : Nat := (items.map Item.encodedSize).sum

section Items

variable {W : Type} (x : Calls W)

def writeItem : Item → Prog (Ctx W) Fault Int
  | .value v => writeValue x.toOutside v
  | .binder b => writeStrongBinder x b
  | .nullBinder => writeStrongBinder x 0

def readItem : Item → Prog (Ctx W) Fault (Int × GotItem)
  | .value v => do
    let (status, got) ← readValue v
    pure (status, .value got)
  | .binder _ | .nullBinder => do
    let (status, out) ← readStrongBinder x
    pure (status, .binder out)

def writeItems : List Item → Prog (Ctx W) Fault (List Int)
  | [] => pure []
  | item :: items => do
    let status ← writeItem x item
    let rest ← writeItems items
    pure (status :: rest)

def readItems : List Item → Prog (Ctx W) Fault (List (Int × GotItem))
  | [] => pure []
  | item :: items => do
    let got ← readItem x item
    let rest ← readItems items
    pure (got :: rest)

/-- Writes the items into a fresh parcel, goes back to its start and reads them. -/
def itemsRoundTrip (items : List Item) :
    Prog (Ctx W) Fault (List Int × List (Int × GotItem)) := do
  initState
  let written ← writeItems x items
  setDataPosition 0
  let read ← readItems x items
  pure (written, read)

end Items

/-! ## What stands in the data -/

section Standing

open Process (Totals Has once)
open ParcelProcess (Sendable Changed FlatOf)

variable {w w' : ParcelProcess} {t t' : Totals} {k : Process.Knot} {o : ParcelEnv}
  {c c' : Ctx ParcelProcess} {E : Fault → Prop} {b : BitVec 64}

/-- The object of a binder and its level stand at `pos`, and the object is listed. -/
structure Shown (w : ParcelProcess) (p : Parcel) (pos : Nat) (b : BitVec 64) : Prop where
  object : ∃ obj, FlatOf w b obj ∧ window p.cells pos FLAT_SIZE = obj.toBytes ∧
    (obj.binder ≠ 0 → pos ∈ retained p)
  level : window p.cells (pos + FLAT_SIZE) 4 =
    wordBytes 4 ((w.mStability b.toNat).signExtend 32)
  declared : Stability.isDeclaredLevel ((w.mStability b.toNat).signExtend 32) = true

/-- An item stands at `pos`. -/
def StandsAt (w : ParcelProcess) (p : Parcel) (pos : Nat) : Item → Prop
  | .value v => Encodes p.cells pos v
  | .binder b => Shown w p pos b
  | .nullBinder => ∃ flags, window p.cells pos FLAT_SIZE =
    FlatBinderObject.toBytes ⟨BINDER_TYPE_BINDER, flags, 0, 0⟩

def StandAll (w : ParcelProcess) (p : Parcel) : Nat → List Item → Prop
  | _, [] => True
  | pos, item :: items =>
    StandsAt w p pos item ∧ StandAll w p (pos + item.encodedSize) items

/-- What stands in a parcel stays as long as its bytes are there and its object is listed. -/
theorem StandsAt.kept {p p' : Parcel} {pos : Nat} {item : Item} (h : StandsAt w p pos item)
    (hcells : ∀ q m, pos ≤ q → q + m ≤ pos + item.encodedSize →
      window p'.cells q m = window p.cells q m)
    (hlists : ∀ o ∈ retained p, o ∈ retained p') (hc : Changed t' w w') :
    StandsAt w' p' pos item := by
  cases item with
  | value v => exact Encodes.congr h hcells
  | binder b =>
    obtain ⟨⟨obj, hobj, hbytes, hlisted⟩, hlevel, hdeclared⟩ := h
    have hsame := hc.declared hdeclared
    have hsize : (Item.binder b).encodedSize = FLAT_SIZE + 4 := rfl
    refine ⟨⟨obj, hobj.changed hc, ?_, fun hne => hlists _ (hlisted hne)⟩, ?_, by rwa [hsame]⟩
    · rw [hcells _ _ (Nat.le_refl _) (by omega), hbytes]
    · rw [hcells _ _ (by omega) (by omega), hsame, hlevel]
  | nullBinder =>
    obtain ⟨flags, hbytes⟩ := h
    have hsize : Item.nullBinder.encodedSize = FLAT_SIZE + 4 := rfl
    exact ⟨flags, by rw [hcells _ _ (Nat.le_refl _) (by omega), hbytes]⟩

/-- It stays as the parcel grows at its end. -/
theorem StandsAt.later {n pos : Nat} {offsets : List Nat} {item : Item}
    (h : StandsAt w c.parcel pos item) (hg : Lengthened c c' n offsets) (hc : Changed t' w w')
    (hin : pos + item.encodedSize ≤ c.parcel.mDataPos) : StandsAt w' c'.parcel pos item := by
  apply h.kept _ _ hc
  · intro q m _ hle
    exact hg.before q m (by omega)
  · intro o ho
    rw [hg.retained]
    exact List.mem_append_left _ ho

/-! ## Writing -/

/-- The references that a parcel takes with an item. -/
def Item.taken (w : ParcelProcess) : Item → Nat → Nat
  | .binder b, a => ParcelProcess.dues w b * once b.toNat a
  | .value _, _ | .nullBinder, _ => 0

/-- The binders whose objects a parcel lists for an item: that of handle 0 is none. -/
def Item.objects (w : ParcelProcess) : Item → List (BitVec 64)
  | .binder b => if ParcelProcess.dues w b = 0 then [] else [b]
  | .value _ | .nullBinder => []

theorem Item.objects_of_none (h : ParcelProcess.dues w b = 0) : (Item.binder b).objects w = [] :=
  if_pos h

theorem Item.objects_of_some (h : ParcelProcess.dues w b ≠ 0) : (Item.binder b).objects w = [b] :=
  if_neg h

/-- An item was written behind the others. -/
structure ItemWritten (t : Totals) (c : Ctx ParcelProcess) (item : Item) (r : Int)
    (c' : Ctx ParcelProcess) : Prop where
  ok : r = STATUS_OK
  longer : Lengthened c c' item.encodedSize
    ((item.objects c.world).map fun _ => c.parcel.mDataPos)
  stands : StandsAt c'.world c'.parcel c.parcel.mDataPos item
  changed : Changed (t.more (item.taken c.world)) c.world c'.world

section

variable (htidy : Tidy c.parcel) (ha : Ample c.heap)

include htidy ha

theorem writeValue.grows {x : Outside ParcelProcess} {v : Value} (hv : v.WellFormed)
    (he : c.parcel.mError = STATUS_OK) (hfit : c.parcel.mDataPos + v.encodedSize ≤ 2 ^ 30) :
    wp (writeValue x v) (fun r c' => r = STATUS_OK ∧ Lengthened c c' v.encodedSize [] ∧
      c'.world = c.world ∧ Encodes c'.parcel.cells c.parcel.mDataPos v) E c := by
  apply wp_imp (writeValue.spec htidy.isLocal ha htidy.atEnd v hv he hfit)
  rintro r c' ⟨hr, hadvanced, hencodes⟩
  exact ⟨hr, hadvanced.lengthened htidy, hadvanced.world, hencodes⟩

/-- The word behind an object. -/
theorem writeInt32.grows {x : Outside ParcelProcess} {v : BitVec 32}
    (he : c.parcel.mError = STATUS_OK) (hfit : c.parcel.mDataPos + 4 ≤ 2 ^ 30) :
    wp (writeInt32 x v) (fun r c' => r = STATUS_OK ∧ Lengthened c c' 4 [] ∧ c'.world = c.world ∧
      window c'.parcel.cells c.parcel.mDataPos 4 = wordBytes 4 v) E c :=
  writeValue.grows (v := .int32 v) htidy ha trivial he hfit

/-- A binder is marked, and its level is written. -/
theorem finishFlattenBinder.grows (hne : b ≠ 0) (he : c.parcel.mError = STATUS_OK)
    (hfit : c.parcel.mDataPos + 4 ≤ 2 ^ 30) :
    wp (finishFlattenBinder (ParcelProcess.calls k o) b) (fun r c' => r = STATUS_OK ∧
      Lengthened c c' 4 [] ∧ c'.world = ParcelProcess.marked b c.world ∧
      window c'.parcel.cells c.parcel.mDataPos 4 =
        wordBytes 4 ((ParcelProcess.level c.world b).signExtend 32)) E c := by
  have hlevel : (ParcelProcess.marked b c.world).mStability b.toNat =
      ParcelProcess.level c.world b := Function.update_self ..
  unfold finishFlattenBinder
  rw [wp_bind, wp_outside, ParcelProcess.tryMarkCompilationUnit.spec hne, wp_bind, wp_outside,
    ParcelProcess.getRepr.spec hne]
  have hwrite := writeInt32.grows (E := E) (x := (ParcelProcess.calls k o).toOutside)
    (c := c.setWorld (ParcelProcess.marked b c.world))
    (v := (ParcelProcess.level c.world b).signExtend 32) htidy ha he hfit
  rw [← hlevel] at hwrite ⊢
  apply wp_imp hwrite
  rintro r c' ⟨hr, hlonger, hworld, hword⟩
  exact ⟨hr, hlonger.of_setWorld, hworld, hword⟩

/-- Nothing is marked where there is no binder. -/
theorem finishFlattenBinder.grows_null (he : c.parcel.mError = STATUS_OK)
    (hfit : c.parcel.mDataPos + 4 ≤ 2 ^ 30) :
    wp (finishFlattenBinder (ParcelProcess.calls k o) 0) (fun r c' => r = STATUS_OK ∧
      Lengthened c c' 4 [] ∧ c'.world = c.world) E c := by
  apply wp_imp (writeInt32.grows (x := (ParcelProcess.calls k o).toOutside) (v := 0) htidy ha he
    hfit)
  rintro r c' ⟨hr, hlonger, hworld, -⟩
  exact ⟨hr, hlonger, hworld⟩

end

/-- A binder is written with its level, and the parcel takes its references. -/
theorem writeStrongBinder.writes (htidy : Tidy c.parcel) (ha : Ample c.heap)
    (he : c.parcel.mError = STATUS_OK) (hfit : c.parcel.mDataPos + (FLAT_SIZE + 4) ≤ 2 ^ 30)
    (hs : Sendable t c.world b) (hhas : Has t c.world.process)
    (hroom : t.strong b.toNat + t.weak b.toNat + 3 < 2 ^ 20) :
    wp (writeStrongBinder (ParcelProcess.calls k o) b) (ItemWritten t c (.binder b)) E c := by
  unfold writeStrongBinder flattenBinder
  rw [wp_bind]
  apply wp_indeterminateObject
  intro old
  rw [wp_bind, wp_outside]
  apply wp_imp (ParcelProcess.flatOf.spec (w := c.world) hs.ne)
  rintro obj w₁ ⟨hobj, hquiet⟩
  have hc₁ := hquiet.changed hhas
  have hs₁ := hs.changed hc₁ hs.held
  rw [wp_bind]
  have hacquire : obj.binder ≠ 0 →
      wp (acquire_object (ParcelProcess.calls k o).toOutside obj)
        (fun _ w => Changed (t.more ((Item.binder b).taken c.world)) c.world w)
        (fun e => E (.inCall e)) w₁ := by
    intro hlisted
    apply wp_imp (ParcelProcess.acquire_object.spec hs₁ hc₁.counts.has hroom (hobj.changed hc₁)
      hlisted)
    intro _ w₂ hc₂
    rw [hc₁.dues] at hc₂
    exact hc₁.trans hc₂
  have hplain : obj.binder = 0 →
      Changed (t.more ((Item.binder b).taken c.world)) c.world w₁ := by
    intro hzero
    have hnone : (Item.binder b).taken c.world = fun _ => 0 := by
      funext a
      simp only [Item.taken, hobj.dues_eq_zero_iff.mpr hzero, Nat.zero_mul]
    rw [hnone, Totals.more_zero]
    exact hc₁
  have hwrite := writeObject.grows (E := E)
    (c := (c.mapHeap (Heap.nextLocals 6)).setWorld w₁) htidy ha
    (show c.parcel.mDataPos + FLAT_SIZE ≤ 2 ^ 30 by omega) hobj.type_ne hacquire hplain
  apply wp_imp hwrite
  rintro _ c₂ ⟨rfl, hc₂, hlonger₂, hflat⟩
  have hlonger₂ := hlonger₂.of_setWorld.of_nextLocals
  rw [if_neg (by simp)]
  have hpos₂ := hlonger₂.pos
  apply wp_imp (finishFlattenBinder.grows hlonger₂.tidy (hlonger₂.ample ha) hs.ne
    (hlonger₂.error.trans he) (by omega))
  rintro r c₃ ⟨hr, hlonger₃, hworld, hword⟩
  have hheld : 0 < (t.more ((Item.binder b).taken c.world)).strong b.toNat := by
    have := hs.held
    simp only [Totals.strong_more]
    omega
  have hmark : Changed (t.more ((Item.binder b).taken c.world)) c.world c₃.world := by
    rw [hworld]
    exact hc₂.trans (ParcelProcess.marked_changed hc₂.counts.has)
  have hlevel : c₃.world.mStability b.toNat = ParcelProcess.level c₂.world b := by
    rw [hworld]
    exact Function.update_self ..
  have hoffsets : (if obj.binder ≠ 0 then [c.parcel.mDataPos] else []) ++ [] =
      ((Item.binder b).objects c.world).map fun _ => c.parcel.mDataPos := by
    by_cases hzero : obj.binder = 0
    · rw [if_neg (not_not.mpr hzero), Item.objects_of_none (hobj.dues_eq_zero_iff.mpr hzero)]
      rfl
    · rw [if_pos hzero, Item.objects_of_some fun h => hzero (hobj.dues_eq_zero_iff.mp h)]
      rfl
  refine ⟨hr, hoffsets ▸ hlonger₂.trans hlonger₃, ⟨⟨obj, hobj.changed hmark, ?_, fun hne => ?_⟩,
    ?_, ?_⟩, hmark⟩
  · rw [hlonger₃.before _ _ (by omega)]
    exact hflat
  · rw [hlonger₃.retained, hlonger₂.retained, if_pos hne]
    simp
  · rw [hlevel, ← hpos₂]
    exact hword
  · rw [hlevel]
    exact (hs.changed hc₂ hheld).known.level

/-- No binder is written as an object that is not listed. -/
theorem writeStrongBinder.writes_null (htidy : Tidy c.parcel) (ha : Ample c.heap)
    (he : c.parcel.mError = STATUS_OK) (hfit : c.parcel.mDataPos + (FLAT_SIZE + 4) ≤ 2 ^ 30)
    (hhas : Has t c.world.process) :
    wp (writeStrongBinder (ParcelProcess.calls k o) 0) (ItemWritten t c .nullBinder) E c := by
  unfold writeStrongBinder flattenBinder
  rw [wp_bind]
  apply wp_indeterminateObject
  intro old
  rw [wp_bind, wp_outside]
  apply wp_imp (ParcelProcess.flatOf.spec_null (w := c.world))
  rintro obj w₁ ⟨⟨flags, rfl⟩, rfl⟩
  rw [wp_bind]
  apply wp_imp (writeObject.grows (R := (· = c.world))
    (c := (c.mapHeap (Heap.nextLocals 6)).setWorld c.world) htidy ha
    (show c.parcel.mDataPos + FLAT_SIZE ≤ 2 ^ 30 by omega)
    (show BINDER_TYPE_BINDER ≠ BINDER_TYPE_FD by decide) (fun hne => absurd rfl hne) fun _ => rfl)
  rintro _ c₂ ⟨rfl, hworld₂, hlonger₂, hflat⟩
  have hlonger₂ := hlonger₂.of_setWorld.of_nextLocals
  rw [if_neg (by simp)]
  have hpos₂ := hlonger₂.pos
  apply wp_imp (finishFlattenBinder.grows_null hlonger₂.tidy (hlonger₂.ample ha)
    (hlonger₂.error.trans he) (by omega))
  rintro r c₃ ⟨hr, hlonger₃, hworld₃⟩
  refine ⟨hr, hlonger₂.trans hlonger₃, ⟨flags, ?_⟩, ?_⟩
  · rw [hlonger₃.before _ _ (by omega)]
    exact hflat
  · rw [hworld₃, hworld₂]
    exact .refl hhas

/-- What is needed of each item: strings hold their text, and binders can be sent. -/
def Item.Fits (t : Totals) (w : ParcelProcess) : Item → Prop
  | .value v => v.WellFormed
  | .binder b => Sendable t w b
  | .nullBinder => True

theorem Item.Fits.changed {f : Nat → Nat} {item : Item} (h : item.Fits t w)
    (hc : Changed (t.more f) w w') : item.Fits (t.more f) w' := by
  cases item with
  | value v => exact h
  | nullBinder => trivial
  | binder b =>
    have hheld := Sendable.held h
    exact Sendable.changed h hc (by simp only [Totals.strong_more]; omega)

theorem writeItem.writes {item : Item} (htidy : Tidy c.parcel) (ha : Ample c.heap)
    (he : c.parcel.mError = STATUS_OK) (hfit : c.parcel.mDataPos + item.encodedSize ≤ 2 ^ 30)
    (hitem : item.Fits t c.world) (hhas : Has t c.world.process)
    (hroom : ∀ a, t.strong a + t.weak a + 3 < 2 ^ 20) :
    wp (writeItem (ParcelProcess.calls k o) item) (ItemWritten t c item) E c := by
  cases item with
  | value v =>
    apply wp_imp (writeValue.grows htidy ha hitem he hfit)
    rintro r c' ⟨hr, hlonger, hworld, hencodes⟩
    refine ⟨hr, hlonger, hencodes, ?_⟩
    rw [hworld]
    exact .refl hhas
  | binder b => exact writeStrongBinder.writes htidy ha he hfit hitem hhas (hroom _)
  | nullBinder => exact writeStrongBinder.writes_null htidy ha he hfit hhas

/-- The references that a parcel takes with items. -/
def itemsTaken (w : ParcelProcess) (items : List Item) (a : Nat) : Nat :=
  (items.map fun item => item.taken w a).sum

theorem Item.taken_changed (hc : Changed t' w w') (item : Item) : item.taken w' = item.taken w := by
  funext a
  cases item with
  | binder b =>
    show ParcelProcess.dues w' b * once b.toNat a = ParcelProcess.dues w b * once b.toNat a
    rw [hc.dues]
  | value v => rfl
  | nullBinder => rfl

theorem itemsTaken_changed (hc : Changed t' w w') (items : List Item) :
    itemsTaken w' items = itemsTaken w items := by
  funext a
  unfold itemsTaken
  simp only [Item.taken_changed hc]

/-- A parcel takes at most two references on a binder. -/
theorem Item.taken_le (item : Item) (a : Nat) : item.taken w a ≤ 2 := by
  cases item with
  | binder b =>
    show ParcelProcess.dues w b * once b.toNat a ≤ 2
    exact Nat.mul_le_mul (ParcelProcess.dues_le w b) (Process.once_le b.toNat a)
  | value v => exact Nat.zero_le _
  | nullBinder => exact Nat.zero_le _

theorem itemsTaken_cons (item : Item) (items : List Item) (a : Nat) :
    itemsTaken w (item :: items) a = item.taken w a + itemsTaken w items a := by
  simp [itemsTaken]

theorem itemsTaken_le (items : List Item) (a : Nat) : itemsTaken w items a ≤ 2 * items.length := by
  induction items with
  | nil => simp [itemsTaken]
  | cons item items ih =>
    have hone := Item.taken_le (w := w) item a
    rw [itemsTaken_cons, List.length_cons]
    omega

theorem itemsSize_cons (item : Item) (items : List Item) :
    itemsSize (item :: items) = item.encodedSize + itemsSize items := by
  simp [itemsSize]

/-- Items are written one behind the other. -/
theorem writeItems.writes {items : List Item} (htidy : Tidy c.parcel) (ha : Ample c.heap)
    (he : c.parcel.mError = STATUS_OK) (hfit : c.parcel.mDataPos + itemsSize items ≤ 2 ^ 30)
    (hitems : ∀ item ∈ items, item.Fits t c.world) (hhas : Has t c.world.process)
    (hroom : ∀ a, t.strong a + t.weak a + 2 * items.length + 1 < 2 ^ 20) :
    wp (writeItems (ParcelProcess.calls k o) items) (fun rs c' =>
      rs = items.map (fun _ => STATUS_OK) ∧ (∃ offsets, Lengthened c c' (itemsSize items) offsets) ∧
      StandAll c'.world c'.parcel c.parcel.mDataPos items ∧
      Changed (t.more (itemsTaken c.world items)) c.world c'.world) E c := by
  induction items generalizing c t with
  | nil => exact ⟨rfl, ⟨[], .refl htidy⟩, trivial, .refl hhas⟩
  | cons item items ih =>
    rw [itemsSize_cons] at hfit
    simp only [List.length_cons] at hroom
    unfold writeItems
    rw [wp_bind]
    apply wp_imp (writeItem.writes htidy ha he (by omega) (hitems item (by simp)) hhas fun a => by
      have := hroom a
      omega)
    rintro r c₁ ⟨hr, hlonger, hstands, hc₁⟩
    have hpos := hlonger.pos
    rw [wp_bind]
    apply wp_imp (ih hlonger.tidy (hlonger.ample ha) (hlonger.error.trans he) (by omega)
      (fun later hlater => (hitems later (by simp [hlater])).changed hc₁) hc₁.counts.has ?_)
    · rintro rs c₂ ⟨hrs, ⟨more, hlonger₂⟩, hall, hc₂⟩
      rw [Totals.more_more, itemsTaken_changed hc₁] at hc₂
      have hboth := hlonger.trans hlonger₂
      rw [← itemsSize_cons] at hboth
      refine ⟨?_, ⟨_, hboth⟩, ⟨?_, ?_⟩, ?_⟩
      · rw [hr, hrs, List.map_cons]
      · exact hstands.later hlonger₂ hc₂ (by omega)
      · rwa [← hpos]
      · simp only [funext (itemsTaken_cons (w := c.world) item items)]
        exact hc₁.trans hc₂
    · intro a
      have hleft := hroom a
      have htaken := Item.taken_le (w := c.world) item a
      simp only [Totals.strong_more, Totals.weak_more]
      omega

/-! ## Reading -/

/-- The references that a reader gets with an item. -/
def Item.handed : Item → Nat → Nat
  | .binder b, a => once b.toNat a
  | .value _, _ | .nullBinder, _ => 0

/-- An item was read. -/
structure ItemRead (t : Totals) (c : Ctx ParcelProcess) (item : Item) (got : Int × GotItem)
    (c' : Ctx ParcelProcess) : Prop where
  got : got = (STATUS_OK, item.expected)
  some : item ≠ .nullBinder
  past : MovedOn c c' item.encodedSize
  changed : Changed (t.more item.handed) c.world c'.world

/-- The level that a binder has is read behind its object. -/
theorem finishUnflattenBinder.reads (hne : b ≠ 0) (hl : Legible c.parcel)
    (hin : c.parcel.mDataPos + 4 ≤ c.parcel.mDataSize)
    (hlevel : window c.parcel.cells c.parcel.mDataPos 4 =
      wordBytes 4 ((c.world.mStability b.toNat).signExtend 32))
    (hdeclared : Stability.isDeclaredLevel ((c.world.mStability b.toNat).signExtend 32) = true) :
    wp (finishUnflattenBinder (ParcelProcess.calls k o) b) (fun r c' =>
      r = (STATUS_OK, some b) ∧ MovedOn c c' 4 ∧ c'.world = c.world) E c := by
  have hsz := hl.readable.sz_pos (n := 4) (by decide)
  unfold finishUnflattenBinder
  rw [wp_bind, wp_indeterminate, wp_bind, readInt32.spec (c := c.mapHeap _) hl.readable,
    if_pos (by exact hin)]
  simp only [Ctx.parcel_mapHeap, hlevel, bytesWord_wordBytes (by rfl : 32 = 8 * 4), ne_eq,
    not_true_eq_false, if_false, ParcelProcess.setWidth_signExtend]
  rw [wp_bind, wp_outside]
  apply (ParcelProcess.setRepr.spec_same (w := c.world) hne rfl hdeclared).mpr
  exact ⟨rfl, ⟨rfl, rfl, rfl, rfl, hsz⟩, rfl⟩

/-- A binder that stands at the position is read, with a reference for its reader. -/
theorem readNullableStrongBinder.reads (hs : Sendable t c.world b) (hhas : Has t c.world.process)
    (hroom : t.strong b.toNat + t.weak b.toNat + 2 < 2 ^ 20) (hl : Legible c.parcel)
    (hin : c.parcel.mDataPos + (FLAT_SIZE + 4) ≤ c.parcel.mDataSize)
    (h : Shown c.world c.parcel c.parcel.mDataPos b) :
    wp (readNullableStrongBinder (ParcelProcess.calls k o)) (fun r c' => r = (STATUS_OK, some b) ∧
      MovedOn c c' (FLAT_SIZE + 4) ∧ Changed (t.more (once b.toNat)) c.world c'.world) E c := by
  obtain ⟨⟨obj, hobj, hbytes, hlisted⟩, hlevel, hdeclared⟩ := h
  have hobject := readObject.reads (E := E) hl (by omega) hbytes (hobj.listed_or_null hlisted)
  -- with the reference taken, only the level is left to read
  have hfinish : ∀ c₁ : Ctx ParcelProcess, MovedOn c c₁ FLAT_SIZE →
      Changed (t.more (once b.toNat)) c.world c₁.world →
      wp (finishUnflattenBinder (ParcelProcess.calls k o) b) (fun r c' => r = (STATUS_OK, some b) ∧
        MovedOn c c' (FLAT_SIZE + 4) ∧ Changed (t.more (once b.toNat)) c.world c'.world) E c₁ := by
    intro c₁ hpast hc₁
    have hsame := hc₁.declared hdeclared
    have hpos := hpast.pos
    have hsize := hpast.size
    apply wp_imp (finishUnflattenBinder.reads hs.ne (hpast.legible hl (by omega)) (by omega) ?_ ?_)
    · rintro r c₂ ⟨hr, hpast₂, hworld⟩
      exact ⟨hr, hpast.trans hpast₂, by rwa [hworld]⟩
    · rw [hpast.cells, hpos, hsame, hlevel]
    · rwa [hsame]
  unfold readNullableStrongBinder unflattenBinder
  rw [wp_bind]
  apply wp_imp hobject
  rintro r c₁ ⟨rfl, hpast, hworld⟩
  dsimp only
  have hs₁ : Sendable t c₁.world b := by rwa [hworld]
  have hhas₁ : Has t c₁.world.process := by rwa [hworld]
  cases hobj with
  | ofLocal hnone htype hbinder hcookie =>
    rw [if_pos htype, wp_bind, wp_outside, hcookie]
    apply wp_imp (ParcelProcess.incStrongRequireStrong.spec hs₁ hhas₁ hroom)
    intro _ w₂ hc₂
    rw [hworld] at hc₂
    exact hfinish (c₁.setWorld w₂) ⟨hpast.data, hpast.size, hpast.objects, hpast.objectsSize,
      hpast.pos⟩ hc₂
  | ofProxy handle hsome htype hbinder hcookie =>
    rw [if_neg (by rw [htype]; decide), if_pos htype, wp_bind, wp_outside,
      ParcelProcess.FlatOf.handle_eq hbinder]
    have hsome₁ : (c₁.world.process.objects b.toNat).binder_handle = some handle := by rwa [hworld]
    apply wp_imp (ParcelProcess.getStrongProxyForHandle.spec hs₁ hhas₁ hroom hsome₁)
    rintro r w₂ ⟨hr, hc₂⟩
    rw [hworld] at hc₂
    rw [hr]
    exact hfinish (c₁.setWorld w₂) ⟨hpast.data, hpast.size, hpast.objects, hpast.objectsSize,
      hpast.pos⟩ hc₂

/-- It is no NULL, so that any reader takes it. -/
theorem readStrongBinder.reads (hs : Sendable t c.world b) (hhas : Has t c.world.process)
    (hroom : t.strong b.toNat + t.weak b.toNat + 2 < 2 ^ 20) (hl : Legible c.parcel)
    (hin : c.parcel.mDataPos + (FLAT_SIZE + 4) ≤ c.parcel.mDataSize)
    (h : Shown c.world c.parcel c.parcel.mDataPos b) :
    wp (readStrongBinder (ParcelProcess.calls k o)) (fun r c' => r = (STATUS_OK, some b) ∧
      MovedOn c c' (FLAT_SIZE + 4) ∧ Changed (t.more (once b.toNat)) c.world c'.world) E c := by
  unfold readStrongBinder
  rw [wp_bind]
  apply wp_imp (readNullableStrongBinder.reads hs hhas hroom hl hin h)
  rintro r c' ⟨rfl, hread⟩
  dsimp only
  rw [if_neg (by simpa using hs.ne)]
  exact ⟨rfl, hread⟩

/-- Where no binder stands, its reader calls a function of NULL. -/
theorem readNullableStrongBinder.faults {Q : Int × Option (BitVec 64) → Ctx ParcelProcess → Prop}
    {flags : BitVec 32} (hl : Legible c.parcel)
    (hin : c.parcel.mDataPos + FLAT_SIZE ≤ c.parcel.mDataSize)
    (h : window c.parcel.cells c.parcel.mDataPos FLAT_SIZE =
      FlatBinderObject.toBytes ⟨BINDER_TYPE_BINDER, flags, 0, 0⟩)
    (hE : E (.inCall .nullPointer)) :
    wp (readNullableStrongBinder (ParcelProcess.calls k o)) Q E c := by
  unfold readNullableStrongBinder unflattenBinder
  rw [wp_bind]
  apply wp_imp (readObject.reads hl hin h (.inr ⟨rfl, rfl⟩))
  rintro r c₁ ⟨rfl, -, -⟩
  dsimp only
  rw [if_pos rfl, wp_bind, wp_outside]
  exact hE

theorem readStrongBinder.faults {Q : Int × Option (BitVec 64) → Ctx ParcelProcess → Prop}
    {flags : BitVec 32} (hl : Legible c.parcel)
    (hin : c.parcel.mDataPos + FLAT_SIZE ≤ c.parcel.mDataSize)
    (h : window c.parcel.cells c.parcel.mDataPos FLAT_SIZE =
      FlatBinderObject.toBytes ⟨BINDER_TYPE_BINDER, flags, 0, 0⟩)
    (hE : E (.inCall .nullPointer)) : wp (readStrongBinder (ParcelProcess.calls k o)) Q E c := by
  unfold readStrongBinder
  rw [wp_bind]
  exact readNullableStrongBinder.faults hl hin h hE

theorem readItem.reads {item : Item} (hl : Legible c.parcel)
    (hin : c.parcel.mDataPos + item.encodedSize ≤ c.parcel.mDataSize)
    (hsmall : c.parcel.mDataSize ≤ 2 ^ 30) (hitem : item.Fits t c.world)
    (hhas : Has t c.world.process) (hroom : ∀ a, t.strong a + t.weak a + 2 < 2 ^ 20)
    (h : StandsAt c.world c.parcel c.parcel.mDataPos item)
    (hE : item = .nullBinder → E (.inCall .nullPointer)) :
    wp (readItem (ParcelProcess.calls k o) item) (ItemRead t c item) E c := by
  cases item with
  | value v =>
    have hin' : c.parcel.mDataPos + v.encodedSize ≤ c.parcel.mDataSize := hin
    unfold readItem
    rw [wp_bind]
    apply wp_imp (readValue.reads hl h hin' hsmall)
    rintro got c' ⟨rfl, hpast, hworld⟩
    refine ⟨rfl, by simp, hpast, ?_⟩
    rw [hworld]
    exact .refl hhas
  | binder b =>
    unfold readItem
    rw [wp_bind]
    apply wp_imp (readStrongBinder.reads hitem hhas (hroom _) hl hin h)
    rintro r c' ⟨rfl, hpast, hc⟩
    exact ⟨rfl, by simp, hpast, hc⟩
  | nullBinder =>
    obtain ⟨flags, hbytes⟩ := h
    have hin' : c.parcel.mDataPos + (FLAT_SIZE + 4) ≤ c.parcel.mDataSize := hin
    unfold readItem
    rw [wp_bind]
    exact readStrongBinder.faults hl (by omega) hbytes (hE rfl)

/-- The references that a reader gets with items. -/
def itemsHanded (items : List Item) (a : Nat) : Nat := (items.map fun item => item.handed a).sum

theorem itemsHanded_cons (item : Item) (items : List Item) (a : Nat) :
    itemsHanded (item :: items) a = item.handed a + itemsHanded items a := by
  simp [itemsHanded]

theorem Item.handed_le (item : Item) (a : Nat) : item.handed a ≤ 1 := by
  cases item with
  | binder b => exact Process.once_le b.toNat a
  | value v => exact Nat.zero_le _
  | nullBinder => exact Nat.zero_le _

theorem StandAll.kept {p p' : Parcel} {pos : Nat} {items : List Item} (h : StandAll w p pos items)
    (hcells : p'.cells = p.cells) (hlists : ∀ o ∈ retained p, o ∈ retained p')
    (hc : Changed t' w w') : StandAll w' p' pos items := by
  induction items generalizing pos with
  | nil => trivial
  | cons item items ih =>
    refine ⟨h.1.kept (fun q m _ _ => ?_) hlists hc, ih h.2⟩
    rw [hcells]

/-- Items that stand in the data from the position on are read, up to one that is no binder. -/
theorem readItems.reads {items : List Item} (hl : Legible c.parcel)
    (hin : c.parcel.mDataPos + itemsSize items ≤ c.parcel.mDataSize)
    (hsmall : c.parcel.mDataSize ≤ 2 ^ 30) (hitems : ∀ item ∈ items, item.Fits t c.world)
    (hhas : Has t c.world.process)
    (hroom : ∀ a, t.strong a + t.weak a + items.length + 1 < 2 ^ 20)
    (h : StandAll c.world c.parcel c.parcel.mDataPos items)
    (hE : .nullBinder ∈ items → E (.inCall .nullPointer)) :
    wp (readItems (ParcelProcess.calls k o) items) (fun got c' =>
      got = items.map (fun item => (STATUS_OK, item.expected)) ∧ .nullBinder ∉ items ∧
      MovedOn c c' (itemsSize items) ∧ Changed (t.more (itemsHanded items)) c.world c'.world) E c := by
  induction items generalizing c t with
  | nil => exact ⟨rfl, by simp, ⟨rfl, rfl, rfl, rfl, rfl⟩, .refl hhas⟩
  | cons item items ih =>
    rw [itemsSize_cons] at hin
    simp only [List.length_cons] at hroom
    unfold readItems
    rw [wp_bind]
    apply wp_imp (readItem.reads hl (by omega) hsmall (hitems item (by simp)) hhas
      (fun a => by have := hroom a; omega) h.1 fun hnull => hE (by simp [hnull]))
    rintro got c₁ ⟨hgot, hsome, hpast, hc₁⟩
    have hpos := hpast.pos
    have hsize := hpast.size
    have hlater : StandAll c₁.world c₁.parcel c₁.parcel.mDataPos items := by
      rw [hpos]
      exact h.2.kept hpast.cells (fun o ho => by rwa [hpast.retained]) hc₁
    rw [wp_bind]
    apply wp_imp (ih (hpast.legible hl (by omega)) (by omega) (by omega)
      (fun later hlater => (hitems later (by simp [hlater])).changed hc₁) hc₁.counts.has ?_ hlater
      fun hmem => hE (by simp [hmem]))
    · rintro gots c₂ ⟨hgots, hnone, hpast₂, hc₂⟩
      rw [Totals.more_more] at hc₂
      refine ⟨?_, ?_, ?_, ?_⟩
      · rw [hgot, hgots, List.map_cons]
      · simp only [List.mem_cons, not_or]
        exact ⟨fun heq => hsome heq.symm, hnone⟩
      · rw [itemsSize_cons]
        exact hpast.trans hpast₂
      · simp only [funext (itemsHanded_cons item items)]
        exact hc₁.trans hc₂
    · intro a
      have hleft := hroom a
      have hhanded := Item.handed_le item a
      simp only [Totals.strong_more, Totals.weak_more]
      omega

/-! ## The law -/

/-- The whole round trip, up to the first read of no binder. -/
theorem itemsRoundTrip.runs {items : List Item} (ha : Ample c.heap) (hhas : Has t c.world.process)
    (hitems : ∀ item ∈ items, item.Fits t c.world)
    (hroom : ∀ a, t.strong a + t.weak a + 3 * items.length + 1 < 2 ^ 20)
    (hfit : itemsSize items ≤ 2 ^ 30) :
    wp (itemsRoundTrip (ParcelProcess.calls k o) items) (fun r c' =>
      .nullBinder ∉ items ∧
      r = (items.map fun _ => STATUS_OK, items.map fun item => (STATUS_OK, item.expected)) ∧
      c'.parcel.mDataPos = c'.parcel.mDataSize ∧
      Has (t.more fun a => itemsTaken c.world items a + itemsHanded items a) c'.world.process)
      (fun e => e = .inCall .nullPointer ∧ .nullBinder ∈ items) c := by
  unfold itemsRoundTrip initState
  rw [wp_bind, wp_update, wp_bind]
  have htidy : Tidy (c.mapParcel fun _ => empty).parcel := ⟨empty_local, rfl, by
    show Apart ([] ++ [0])
    decide⟩
  apply wp_imp (writeItems.writes htidy ha rfl (by simpa [empty] using hfit) hitems hhas
    fun a => by have := hroom a; omega)
  rintro rs c₁ ⟨hrs, ⟨offsets, hlonger⟩, hall, hc₁⟩
  have hpos : c₁.parcel.mDataPos = itemsSize items := by simpa [empty] using hlonger.pos
  have hatEnd := hlonger.tidy.atEnd
  have hlocal := hlonger.tidy.isLocal
  rw [wp_bind, setDataPosition.spec (Nat.zero_le _), wp_bind]
  have hlegible : Legible (c₁.mapParcel fun p =>
      { p with mDataPos := 0, mNextObjectHint := 0, mObjectsSorted := false }).parcel :=
    hlonger.tidy.legible (Nat.zero_le _)
  apply wp_imp (readItems.reads hlegible (show 0 + itemsSize items ≤ c₁.parcel.mDataSize by omega)
    (show c₁.parcel.mDataSize ≤ 2 ^ 30 by omega) (fun item hmem => (hitems item hmem).changed hc₁)
    hc₁.counts.has ?_ (hall.kept rfl (fun _ ho => ho) (.refl hc₁.counts.has))
    fun hmem => ⟨rfl, hmem⟩)
  · rintro got c₂ ⟨hgot, hnone, hpast, hc₂⟩
    have hpos₂ : c₂.parcel.mDataPos = 0 + itemsSize items := hpast.pos
    have hsize₂ : c₂.parcel.mDataSize = c₁.parcel.mDataSize := hpast.size
    rw [Totals.more_more] at hc₂
    exact ⟨hnone, by rw [hrs, hgot], by omega, hc₂.counts.has⟩
  · intro a
    have hleft := hroom a
    have htaken := itemsTaken_le (w := c.world) items a
    show t.strong a + itemsTaken c.world items a + t.weak a + items.length + 1 < 2 ^ 20
    omega

/-- What is written in order into a fresh parcel, with memory to be had, at most 2^30 bytes in all
and every binder held by somebody, is read back in order as it was, each with an OK status, unless
there is a NULL among the binders: its reader calls a function of NULL. The reader then has a
reference on each binder, and the parcel one on each binder of this process. On a proxy the parcel
has two, unless it is that of handle 0, on which it has none. -/
theorem binders_are_read_as_they_were_written (k : Process.Knot) (o : ParcelEnv)
    (c : Ctx ParcelProcess) (t : Totals) (items : List Item) (ha : Ample c.heap)
    (hhas : Has t c.world.process) (hitems : ∀ item ∈ items, item.Fits t c.world)
    (hroom : ∀ a, t.strong a + t.weak a + 3 * items.length + 1 < 2 ^ 20)
    (hfit : itemsSize items ≤ 2 ^ 30) :
    (.nullBinder ∈ items →
      itemsRoundTrip (ParcelProcess.calls k o) items c = .error (.inCall .nullPointer)) ∧
    (.nullBinder ∉ items → ∃ c',
      itemsRoundTrip (ParcelProcess.calls k o) items c =
        .ok ((items.map fun _ => STATUS_OK, items.map fun item => (STATUS_OK, item.expected)), c') ∧
      c'.parcel.mDataPos = c'.parcel.mDataSize ∧
      ∀ a, Process.strongCount (c'.world.process.objects a).refs =
        Process.strongCount (c.world.process.objects a).refs + itemsTaken c.world items a +
          itemsHanded items a) := by
  have hrun := itemsRoundTrip.runs (k := k) (o := o) ha hhas hitems hroom hfit
  constructor
  · intro hmem
    unfold wp at hrun
    cases hres : itemsRoundTrip (ParcelProcess.calls k o) items c with
    | ok r =>
      rw [hres] at hrun
      exact absurd hmem hrun.1
    | error e =>
      rw [hres] at hrun
      rw [hrun.1]
  · intro hmem
    unfold wp at hrun
    cases hres : itemsRoundTrip (ParcelProcess.calls k o) items c with
    | error e =>
      rw [hres] at hrun
      exact absurd hrun.2 hmem
    | ok r =>
      obtain ⟨r, c'⟩ := r
      rw [hres] at hrun
      obtain ⟨-, rfl, hend, hhas'⟩ := hrun
      refine ⟨c', rfl, hend, fun a => ?_⟩
      rw [hhas'.strongCount, hhas.strongCount, Totals.strong_more, Nat.add_assoc]

/-- A process with a binder of its own at 4096 and the proxy of handle 1 at 8192, each held once. -/
def twoBinders : ParcelProcess where
  process := { Process.start 5 0 with
    objects := fun a =>
      if a = 4096 then ⟨none, counts 0 (some 1) 1⟩
      else if a = 8192 then ⟨some 1, counts 0 (some 1) 1⟩
      else ⟨none, counts 0 none 0⟩
    mHandleToObject := ⟨[0, 1], 2⟩
    entries := [⟨0⟩, ⟨8192⟩] }
  mStability := fun _ => 0
  locals := fun _ => BBinder.ctor (fun _ => true) fun n => BitVec.ofNat 64 n
  refsAt := fun _ => 1
  mDisableBackgroundScheduling := false
  extras_lt := fun _ _ h => by cases h
  refsAt_ne := fun _ => by decide

def heldOnce (a : Nat) : Nat := if a = 4096 ∨ a = 8192 then 1 else 0

def twoTotals : Totals := ⟨heldOnce, fun _ => 0, fun a => heldOnce a == 1⟩

theorem twoTotals_has : Has twoTotals twoBinders.process where
  refs := by
    intro a
    by_cases hfirst : a = 4096
    · subst hfirst
      rfl
    by_cases hsecond : a = 8192
    · subst hsecond
      rfl
    simp [twoTotals, twoBinders, heldOnce, Totals.count, hfirst, hsecond, counts]
  fresh := by
    intro a
    simp only [twoTotals, heldOnce]
    split <;> simp
  small := by
    intro a
    simp only [twoTotals, heldOnce]
    split <;> simp

theorem twoBinders_first : Sendable twoTotals twoBinders 4096 :=
  ⟨by decide, by decide, .inl rfl, fun handle h => by cases h⟩

theorem twoBinders_second : Sendable twoTotals twoBinders 8192 := by
  refine ⟨by decide, by decide, .inl rfl, fun handle h => ?_⟩
  obtain rfl : 1 = handle := Option.some.inj h
  exact ⟨by decide, by decide⟩

/-- The environment that answers nothing. -/
def quietEnv : ParcelEnv where
  sched := ⟨1, 2, 1, 99, 50⟩
  close := fun _ => pure ()
  freeBuffer := fun _ => pure ()
  getInterfaceDescriptor := fun _ => pure hi

theorem two_binders_are_read_as_they_were_written : ∃ c',
    itemsRoundTrip (ParcelProcess.calls (Process.knot 0) quietEnv)
        [.value (.int32 7), .binder 4096, .value (.string hi), .binder 8192]
        ⟨empty, plenty, twoBinders⟩ =
      .ok (([STATUS_OK, STATUS_OK, STATUS_OK, STATUS_OK],
        [(STATUS_OK, .value (.int32 7)), (STATUS_OK, .binder (some 4096)),
          (STATUS_OK, .value (.text [104, 105])), (STATUS_OK, .binder (some 8192))]), c') ∧
      Process.strongCount (c'.world.process.objects 4096).refs = 3 ∧
      Process.strongCount (c'.world.process.objects 8192).refs = 4 := by
  obtain ⟨c', hrun, -, hcounts⟩ := (binders_are_read_as_they_were_written (Process.knot 0) quietEnv
    ⟨empty, plenty, twoBinders⟩ twoTotals
    [.value (.int32 7), .binder 4096, .value (.string hi), .binder 8192]
    (fun _ h => by cases h) twoTotals_has
    (by
      intro item hmem
      simp only [List.mem_cons, List.not_mem_nil, or_false] at hmem
      rcases hmem with rfl | rfl | rfl | rfl
      · trivial
      · exact twoBinders_first
      · exact ⟨_, hi_holds⟩
      · exact twoBinders_second)
    (by
      intro a
      show heldOnce a + 0 + 3 * 4 + 1 < 2 ^ 20
      unfold heldOnce
      split <;> decide)
    (by decide)).2 (by simp)
  exact ⟨c', hrun, hcounts 4096, hcounts 8192⟩

end Standing

end system_binder.Parcel
