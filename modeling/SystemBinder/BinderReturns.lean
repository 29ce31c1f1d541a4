-- A binder comes back from the parcel that it was written to, whatever is written around it and
-- whatever memory there is. A NULL does not.
import SystemBinder.ParcelBalance
import SystemBinder.ParcelToken

open prog memory

namespace system_binder

namespace ParcelProcess

open Process (Totals Has Short found knot once)

variable {w w' : ParcelProcess} {t t' t'' : Totals} {n m : Nat} {o : ParcelEnv} {b : BitVec 64}
  {obj : FlatBinderObject} {E : Fault → Prop}

/-! ## Binders that can be written -/

/-- A binder of the process that was not destroyed, or a proxy that somebody holds and that the
table has. -/
structure Writable (t : Totals) (w : ParcelProcess) (b : BitVec 64) : Prop where
  ne : b ≠ 0
  known : Known (w.mStability b.toNat)
  own : (w.process.objects b.toNat).binder_handle = none → t.owned b.toNat = true →
    0 < t.strong b.toNat
  routed : ∀ handle, (w.process.objects b.toNat).binder_handle = some handle →
    0 < t.strong b.toNat ∧ ¬Short w.process handle ∧ found w.process handle = some b.toNat

/-- Each object has as many strong references as before, or at most `n` more. -/
structure Takes (n : Nat) (t t' : Totals) : Prop where
  least : ∀ a, t.strong a ≤ t'.strong a
  most : ∀ a, t'.strong a ≤ t.strong a + n
  weak : t'.weak = t.weak
  owned : ∀ a, t'.owned a = true → t.owned a = true ∨ 0 < t'.strong a

theorem Takes.refl (n : Nat) (t : Totals) : Takes n t t :=
  ⟨fun _ => Nat.le_refl _, fun _ => Nat.le_add_right _ _, rfl, fun _ h => .inl h⟩

theorem Takes.trans (h : Takes n t t') (h' : Takes m t' t'') : Takes (n + m) t t'' := by
  refine ⟨fun a => Nat.le_trans (h.least a) (h'.least a), fun a => ?_, h'.weak.trans h.weak,
    fun a howned => ?_⟩
  · have hfirst := h.most a
    have hsecond := h'.most a
    omega
  · rcases h'.owned a howned with hbefore | hheld
    · rcases h.owned a hbefore with hold | hheld
      · exact .inl hold
      · exact .inr (Nat.lt_of_lt_of_le hheld (h'.least a))
    · exact .inr hheld

/-- What is left of the room for references. -/
theorem Takes.room {k a : Nat} (h : Takes n t t')
    (hroom : t.strong a + t.weak a + (n + k) < 2 ^ 20) : t'.strong a + t'.weak a + k < 2 ^ 20 := by
  have hmost := h.most a
  rw [h.weak]
  omega

theorem Takes.addStrong (a : Nat) : Takes 2 t (t.addStrong a) := by
  have hstrong := fun c => strong_addStrong (t := t) c a
  refine ⟨fun c => by rw [hstrong]; omega, fun c => ?_, rfl, fun c howned => ?_⟩
  · have hone := Process.once_le a c
    rw [hstrong]
    omega
  · by_cases hc : c = a
    · subst hc
      exact .inr (by rw [hstrong, Process.once_self]; omega)
    · exact .inl (by rwa [Totals.addStrong, Totals.owned_setStrong_ne _ _ hc] at howned)

/-- What could be written can be written later. -/
theorem Writable.later (h : Writable t w b) (hc : Changed t' w w') (ht : Takes n t t') :
    Writable t' w' b := by
  have hleast := ht.least b.toNat
  refine ⟨h.ne, ?_, fun hnone howned => ?_, fun handle hsome => ?_⟩
  · rcases hc.levels b.toNat with hsame | ⟨-, hset⟩
    · rw [hsame]
      exact h.known
    · rw [hset]
      exact .inr (by decide)
  · rw [hc.handle] at hnone
    rcases ht.owned _ howned with hbefore | hheld
    · exact Nat.lt_of_lt_of_le (h.own hnone hbefore) hleast
    · exact hheld
  · rw [hc.handle] at hsome
    obtain ⟨hheld, hshort, hfound⟩ := h.routed handle hsome
    have hstill := Nat.lt_of_lt_of_le hheld hleast
    exact ⟨hstill, by rwa [Process.short_recounted hc.counts],
      Process.found_recounted hc.counts hstill hfound⟩

theorem Writable.sendable (h : Writable t w b) (hheld : 0 < t.strong b.toNat) : Sendable t w b :=
  ⟨h.ne, hheld, h.known, fun handle hsome => (h.routed handle hsome).2⟩

/-- A parcel that lists the object of a binder holds the binder. -/
theorem acquire_object.takes (h : Writable t w b) (hhas : Has t w.process)
    (hroom : t.strong b.toNat + t.weak b.toNat + 3 < 2 ^ 20) (hobj : FlatOf w b obj)
    (hlisted : obj.binder ≠ 0) :
    wp (Parcel.acquire_object (calls (knot (n + 1)) o).toOutside obj) (fun _ w' =>
      ∃ t', Takes 2 t t' ∧ Changed t' w w' ∧ 0 < t'.strong b.toNat) E w := by
  cases hhandle : (w.process.objects b.toNat).binder_handle with
  | none =>
    cases hobj with
    | ofProxy handle hsome => exact absurd (hsome.symm.trans hhandle) (by simp)
    | ofLocal _ htype hbinder hcookie =>
      unfold Parcel.acquire_object
      rw [if_pos htype, if_pos hlisted, hcookie]
      apply wp_imp (incStrong.adds h.ne hhas hhandle (h.own hhandle) (by omega))
      intro _ w' hc
      refine ⟨_, .addStrong _, hc, ?_⟩
      rw [strong_addStrong, Process.once_self]
      omega
  | some handle =>
    have hheld := (h.routed handle hhandle).1
    apply wp_imp (acquire_object.spec (h.sendable hheld) hhas hroom hobj hlisted)
    intro _ w' hc
    refine ⟨t.more fun a => dues w b * once b.toNat a,
      ⟨fun a => ?_, fun a => ?_, rfl, fun a howned => .inl howned⟩, hc, ?_⟩
    · simp only [Totals.strong_more]
      omega
    · have htwo := Nat.mul_le_mul (dues_le w b) (Process.once_le b.toNat a)
      simp only [Totals.strong_more]
      omega
    · simp only [Totals.strong_more]
      omega

end ParcelProcess

namespace Parcel

open Process (Totals Has knot)
open ParcelProcess (Writable Takes Changed FlatOf)

/-! ## What is written behind -/

section

variable {W : Type} {x : Outside W} {c c' c'' : Ctx W} {E : Fault → Prop} {val : FlatBinderObject}
  {nullMetaData : Bool}

/-- `c'` is `c` with more at its end, or none. -/
structure Extended (c c' : Ctx W) : Prop where
  tidy : Tidy c'.parcel
  pos : c.parcel.mDataPos ≤ c'.parcel.mDataPos
  before : ∀ q m, q + m ≤ c.parcel.mDataPos →
    window c'.parcel.cells q m = window c.parcel.cells q m
  retained : ∀ o ∈ retained c.parcel, o ∈ retained c'.parcel

theorem Extended.refl (h : Tidy c.parcel) : Extended c c :=
  ⟨h, Nat.le_refl _, fun _ _ _ => rfl, fun _ ho => ho⟩

theorem Extended.trans (h : Extended c c') (h' : Extended c' c'') : Extended c c'' where
  tidy := h'.tidy
  pos := Nat.le_trans h.pos h'.pos
  before := fun q m hq =>
    (h'.before q m (Nat.le_trans hq h.pos)).trans (h.before q m hq)
  retained := fun o ho => h'.retained o (h.retained o ho)

/-- What the objects are does not matter, nor what uninitialised memory holds. -/
theorem Extended.of_setWorld {w : W} (h : Extended (c.setWorld w) c') : Extended c c' :=
  ⟨h.tidy, h.pos, h.before, h.retained⟩

theorem Extended.of_nextLocals {k : Nat} (h : Extended (c.mapHeap (Heap.nextLocals k)) c') :
    Extended c c' := ⟨h.tidy, h.pos, h.before, h.retained⟩

theorem Advanced.extended {n : Nat} (h : Tidy c.parcel) (a : Advanced c c' n) : Extended c c' := by
  have hatEnd := h.atEnd
  have hcapacity := h.isLocal.size
  refine ⟨a.tidy h, ?_, fun q m hq => a.others q m (by omega) (.inl hq), fun o ho => ?_⟩
  · rw [a.pos]
    exact Nat.le_add_right _ _
  · rwa [a.retained]

theorem Added.extended {listed : Bool} (h : Tidy c.parcel) (a : Added c c' val listed) :
    Extended c c' := by
  have hatEnd := h.atEnd
  have hcapacity := h.isLocal.size
  refine ⟨a.tidy h, ?_, fun q m hq => a.others q m (by omega) (.inl hq), fun o ho => ?_⟩
  · rw [a.pos]
    exact Nat.le_add_right _ _
  · rw [a.retained h.isLocal]
    exact List.mem_append_left _ ho

theorem Refused.extended (h : Tidy c.parcel) (r : Refused c c') : Extended c c' := by
  have hatEnd := h.atEnd
  have hcapacity := h.isLocal.size
  have hlist : Parcel.retained c'.parcel = Parcel.retained c.parcel :=
    retained_congr r.objectsSize r.table
  refine ⟨⟨r.isLocal, ?_, ?_⟩, Nat.le_of_eq r.pos.symm,
    fun q m hq => r.others q m (by omega) (.inl hq), fun o ho => by rwa [hlist]⟩
  · rw [r.pos, r.size, hatEnd]
  · rw [hlist, r.pos]
    exact h.apart

theorem Kept.extended (h : Tidy c.parcel) (k : Kept c c') : Extended c c' :=
  k.prepared.refused.extended h

/-- A value that is written leaves what stands before it. -/
theorem writeValue.extends {v : Value} (h : Tidy c.parcel) (hv : v.WellFormed) :
    wp (writeValue x v) (fun _ c' => Extended c c' ∧ c'.world = c.world) E c := by
  have l := h.isLocal
  have hadvanced : ∀ {n c'}, Advanced c c' n → Extended c c' ∧ c'.world = c.world :=
    fun a => ⟨a.extended h, a.world⟩
  have hkept : ∀ {c'}, Kept c c' → Extended c c' ∧ c'.world = c.world :=
    fun k => ⟨k.extended h, k.world⟩
  have hword : ∀ bs : List UInt8, 0 < bs.length → bs.length ≤ 8 →
      wp (writeAligned x bs) (fun _ c' => Extended c c' ∧ c'.world = c.world) E c :=
    fun bs h0 h8 => writeAligned.spec l h0 (Nat.le_trans h8 (by decide)) (fun _ a _ => hadvanced a)
      fun _ _ _ k _ => hkept k
  cases v with
  | int32 val => exact hword _ (by simp) (by simp)
  | bool val => exact hword _ (by simp) (by simp)
  | pointer val => exact hword _ (by simp) (by simp)
  | nullString => exact hword _ (by simp) (by simp)
  | blob data => exact write.spec l (fun _ _ _ _ a _ => hadvanced a) fun _ _ k _ => hkept k
  | string str =>
    obtain ⟨text, htext⟩ := hv
    refine writeString16.spec_parts htext.carries l (fun _ a _ _ => hadvanced a)
      (fun _ _ _ k _ => hkept k) fun c₁ c' a k _ => ?_
    have hfirst := a.extended h
    exact ⟨hfirst.trans (k.extended hfirst.tidy), k.world.trans a.world⟩

/-- An object stands behind the others, and is listed unless it is a null one, or it is not
written. -/
theorem writeObject.extends {R : W → Prop} (h : Tidy c.parcel)
    (hlisted : nullMetaData = true ∨ val.binder ≠ 0 →
      wp (acquire_object x val) (fun _ w => R w) (fun e => E (.inCall e)) c.world)
    (hplain : ¬(nullMetaData = true ∨ val.binder ≠ 0) → R c.world) :
    wp (writeObject x val nullMetaData) (fun r c' => Extended c c' ∧
      (r ≠ STATUS_OK → c'.world = c.world) ∧
      (r = STATUS_OK → R c'.world ∧ c'.parcel.mDataPos = c.parcel.mDataPos + FLAT_SIZE ∧
        window c'.parcel.cells c.parcel.mDataPos FLAT_SIZE = val.toBytes ∧
        (val.binder ≠ 0 → c.parcel.mDataPos ∈ retained c'.parcel))) E c := by
  apply writeObject.spec h.isLocal
  · intro r c' hne refused
    exact ⟨refused.extended h, fun _ => refused.world, fun hok => absurd hok hne⟩
  · intro hyes
    apply wp_imp (hlisted hyes)
    intro _ w hw c' hadded hworld
    refine ⟨hadded.extended h, fun hne => absurd rfl hne, fun _ =>
      ⟨by rwa [hworld], hadded.pos, hadded.flat, fun _ => ?_⟩⟩
    rw [hadded.retained h.isLocal, if_pos rfl]
    exact List.mem_append_right _ (List.mem_singleton_self _)
  · intro hno c' hadded hworld
    refine ⟨hadded.extended h, fun hne => absurd rfl hne, fun _ =>
      ⟨by rw [hworld]; exact hplain hno, hadded.pos, hadded.flat, fun hbinder => ?_⟩⟩
    exact absurd (.inr hbinder) hno

end

/-! ## Binders and other values -/

/-- What may be written around a binder. -/
inductive OtherWrite
  | item (it : Item)
  | file (fd : BitVec 32) (takeOwnership : Bool)
  | token (interface : BinderString)

section

variable {W : Type} (x : Calls W)

def writeOther : OtherWrite → Prog (Ctx W) Fault Int
  | .item it => writeItem x it
  | .file fd takeOwnership => writeFileDescriptor x.toOutside fd takeOwnership
  | .token interface => writeInterfaceToken x interface

def writeOthers : List OtherWrite → Prog (Ctx W) Fault Unit
  | [] => pure ()
  | other :: others => do
    let _ ← writeOther x other
    writeOthers others

end

/-- Strings hold their text, and binders are no dead ones. -/
def OtherWrite.Fits (t : Totals) (w : ParcelProcess) : OtherWrite → Prop
  | .item (.value v) => v.WellFormed
  | .item (.binder b) => Writable t w b
  | .token interface => (Value.string interface).WellFormed
  | .item .nullBinder | .file _ _ => True

variable {c c' c₁ c₂ : Ctx ParcelProcess} {w : ParcelProcess} {t t' : Totals} {n : Nat}
  {o : ParcelEnv} {b : BitVec 64} {E : Fault → Prop}

theorem OtherWrite.Fits.later {w' : ParcelProcess} {m : Nat} {other : OtherWrite}
    (h : other.Fits t w) (hc : Changed t' w w') (ht : Takes m t t') : other.Fits t' w' := by
  cases other with
  | file fd takeOwnership => trivial
  | token interface => exact h
  | item it =>
    cases it with
    | value v => exact h
    | nullBinder => trivial
    | binder b => exact Writable.later h hc ht

/-- A binder is marked, and its level goes behind the object, if there is room. -/
theorem finishFlattenBinder.extends (h : Tidy c.parcel) (hhas : Has t c.world.process)
    (hne : b ≠ 0) :
    wp (finishFlattenBinder (ParcelProcess.calls (knot n) o) b) (fun r c' => Extended c c' ∧
      Changed t c.world c'.world ∧
      (r = STATUS_OK → c'.parcel.mDataPos = c.parcel.mDataPos + 4 ∧
        window c'.parcel.cells c.parcel.mDataPos 4 =
          wordBytes 4 ((ParcelProcess.level c.world b).signExtend 32) ∧
        c'.world.mStability b.toNat = ParcelProcess.level c.world b)) E c := by
  have hlevel : (ParcelProcess.marked b c.world).mStability b.toNat =
      ParcelProcess.level c.world b := Function.update_self ..
  have hmarked := ParcelProcess.marked_changed (b := b) hhas
  unfold finishFlattenBinder
  rw [wp_bind, wp_outside, ParcelProcess.tryMarkCompilationUnit.spec hne, wp_bind, wp_outside,
    ParcelProcess.getRepr.spec hne]
  apply writeAligned.spec (c := c.setWorld (ParcelProcess.marked b c.world)) h.isLocal (by simp)
    (by rw [length_wordBytes]; decide)
  · intro c' a hword
    rw [length_wordBytes] at a hword
    have hextended := Advanced.extended (c := c.setWorld (ParcelProcess.marked b c.world)) h a
    rw [← hlevel, a.world]
    exact ⟨hextended.of_setWorld, hmarked, fun _ => ⟨a.pos, hword, rfl⟩⟩
  · intro r c' hne k _
    have hextended := Kept.extended (c := c.setWorld (ParcelProcess.marked b c.world)) h k
    rw [k.world]
    exact ⟨hextended.of_setWorld, hmarked, fun hok => absurd hok hne⟩

/-- What stands in a parcel stays as it is extended. -/
theorem StandsAt.extended {pos : Nat} {it : Item} (h : StandsAt c.world c.parcel pos it)
    (he : Extended c c') (hc : Changed t' c.world c'.world)
    (hin : pos + it.encodedSize ≤ c.parcel.mDataPos) : StandsAt c'.world c'.parcel pos it :=
  h.kept (fun q m _ hle => he.before q m (Nat.le_trans hle hin)) he.retained hc

/-- A binder is written with its level, and the parcel holds it, or something is short. -/
theorem writeStrongBinder.extends (h : Tidy c.parcel) (hb : Writable t c.world b)
    (hhas : Has t c.world.process) (hroom : t.strong b.toNat + t.weak b.toNat + 3 < 2 ^ 20) :
    wp (writeStrongBinder (ParcelProcess.calls (knot (n + 1)) o) b) (fun r c' => Extended c c' ∧
      ∃ t', Takes 2 t t' ∧ Changed t' c.world c'.world ∧ (r = STATUS_OK →
        0 < t'.strong b.toNat ∧ c'.parcel.mDataPos = c.parcel.mDataPos + (FLAT_SIZE + 4) ∧
        Shown c'.world c'.parcel c.parcel.mDataPos b)) E c := by
  unfold writeStrongBinder flattenBinder
  rw [wp_bind]
  apply wp_indeterminateObject
  intro old
  rw [wp_bind, wp_outside]
  apply wp_imp (ParcelProcess.flatOf.spec (w := c.world) hb.ne)
  rintro obj w₁ ⟨hobj, hquiet⟩
  have hc₁ := hquiet.changed hhas
  have hb₁ := hb.later hc₁ (.refl 0 t)
  rw [wp_bind]
  refine wp_imp (writeObject.extends (R := fun w =>
    ∃ t', Takes 2 t t' ∧ Changed t' c.world w ∧ 0 < t'.strong b.toNat) h ?_ ?_) ?_
  · intro hyes
    apply wp_imp (ParcelProcess.acquire_object.takes hb₁ hc₁.counts.has hroom
      (hobj.changed hc₁) (hyes.resolve_left (by decide)))
    rintro _ w₂ ⟨t', htakes, hc₂, hheld⟩
    exact ⟨t', htakes, hc₁.trans hc₂, hheld⟩
  · -- only the proxy of handle 0 is not listed, and somebody holds it
    intro hno
    have hzero : obj.binder = 0 := not_not.mp fun hbinder => hno (.inr hbinder)
    refine ⟨t, .refl 2 t, hc₁, ?_⟩
    cases hobj with
    | ofLocal _ _ hbinder _ => exact absurd (hbinder.symm.trans hzero) (c.world.refsAt_ne _)
    | ofProxy handle hsome _ _ _ => exact (hb.routed handle hsome).1
  rintro r c₂ ⟨hextended, hrefused, hwritten⟩
  have hextended₂ := hextended.of_setWorld.of_nextLocals
  by_cases hok : r = STATUS_OK
  · obtain ⟨⟨t', htakes, hc₂, hheld⟩, hpos, hflat, hlisted⟩ := hwritten hok
    rw [if_neg (not_not.mpr hok)]
    apply wp_imp (finishFlattenBinder.extends hextended₂.tidy hc₂.counts.has hb.ne)
    rintro r' c₃ ⟨hextended₃, hc₃, hlevel⟩
    have hc := hc₂.trans hc₃
    refine ⟨hextended₂.trans hextended₃, t', htakes, hc, fun hok' => ?_⟩
    obtain ⟨hpos₃, hword, hmarked⟩ := hlevel hok'
    have hpos₂ : c₂.parcel.mDataPos = c.parcel.mDataPos + FLAT_SIZE := hpos
    refine ⟨hheld, by omega, ⟨obj, hobj.changed hc, ?_, fun hbinder => ?_⟩, ?_, ?_⟩
    · rw [hextended₃.before _ _ (by omega)]
      exact hflat
    · exact hextended₃.retained _ (hlisted hbinder)
    · rw [hmarked, ← hpos₂]
      exact hword
    · rw [hmarked]
      exact (hb.later hc₂ htakes).known.level
  · rw [if_pos hok]
    refine ⟨hextended₂, t, .refl 2 t, ?_, fun hok' => absurd hok' hok⟩
    rw [hrefused hok]
    exact hc₁

/-- A NULL is written as an object that is not listed, or something is short. -/
theorem writeStrongBinder.extends_null (h : Tidy c.parcel) (hhas : Has t c.world.process) :
    wp (writeStrongBinder (ParcelProcess.calls (knot n) o) 0) (fun r c' => Extended c c' ∧
      Changed t c.world c'.world ∧ (r = STATUS_OK →
        c'.parcel.mDataPos = c.parcel.mDataPos + (FLAT_SIZE + 4) ∧
        StandsAt c'.world c'.parcel c.parcel.mDataPos .nullBinder)) E c := by
  unfold writeStrongBinder flattenBinder
  rw [wp_bind]
  apply wp_indeterminateObject
  intro old
  rw [wp_bind, wp_outside]
  apply wp_imp (ParcelProcess.flatOf.spec_null (w := c.world))
  rintro obj w₁ ⟨⟨flags, rfl⟩, rfl⟩
  rw [wp_bind]
  refine wp_imp (writeObject.extends (R := (· = c.world)) h
    (fun hyes => absurd rfl (hyes.resolve_left (by decide))) fun _ => rfl) ?_
  rintro r c₂ ⟨hextended, hrefused, hwritten⟩
  have hextended₂ := hextended.of_setWorld.of_nextLocals
  have hworld₂ : c₂.world = c.world := by
    by_cases hok : r = STATUS_OK
    · exact (hwritten hok).1
    · exact hrefused hok
  have hword : wp (writeInt32 (ParcelProcess.calls (knot n) o).toOutside 0) (fun r c' =>
      Extended c₂ c' ∧ c'.world = c₂.world ∧
        (r = STATUS_OK → c'.parcel.mDataPos = c₂.parcel.mDataPos + 4)) E c₂ := by
    apply writeAligned.spec hextended₂.tidy.isLocal (by simp) (by rw [length_wordBytes]; decide)
    · intro c' a _
      rw [length_wordBytes] at a
      exact ⟨a.extended hextended₂.tidy, a.world, fun _ => a.pos⟩
    · intro r c' hne k _
      exact ⟨k.extended hextended₂.tidy, k.world, fun hok => absurd hok hne⟩
  by_cases hok : r = STATUS_OK
  · obtain ⟨-, hpos, hflat, -⟩ := hwritten hok
    have hpos₂ : c₂.parcel.mDataPos = c.parcel.mDataPos + FLAT_SIZE := hpos
    rw [if_neg (not_not.mpr hok)]
    apply wp_imp hword
    rintro r' c₃ ⟨hextended₃, hworld₃, hpos₃⟩
    refine ⟨hextended₂.trans hextended₃, ?_, fun hok' => ⟨?_, flags, ?_⟩⟩
    · rw [hworld₃, hworld₂]
      exact .refl hhas
    · have := hpos₃ hok'
      omega
    · rw [hextended₃.before _ _ (by omega)]
      exact hflat
  · rw [if_pos hok]
    refine ⟨hextended₂, ?_, fun hok' => absurd hok' hok⟩
    rw [hworld₂]
    exact .refl hhas

theorem acquire_object.file {W : Type} {x : Outside W} {Q : Unit → W → Prop} {E : Fault → Prop}
    {w : W} {obj : FlatBinderObject} (htype : obj.type = BINDER_TYPE_FD) :
    wp (acquire_object x obj) Q E w ↔ Q () w := by
  unfold acquire_object
  rw [if_neg (by rw [htype]; decide), if_neg (by rw [htype]; decide)]
  exact Iff.rfl

/-- A file is none of the binders' business. -/
theorem writeFileDescriptor.extends {fd : BitVec 32} {takeOwnership : Bool} (h : Tidy c.parcel) :
    wp (writeFileDescriptor (ParcelProcess.calls (knot n) o).toOutside fd takeOwnership)
      (fun _ c' => Extended c c' ∧ c'.world = c.world) E c := by
  rw [writeFileDescriptor_eq, wp_bind]
  apply wp_indeterminateObject
  intro old
  apply wp_imp (writeObject.extends (R := (· = c.world)) (c := c.mapHeap (Heap.nextLocals 6)) h
    (fun _ => (acquire_object.file rfl).mpr rfl) fun _ => rfl)
  rintro r c' ⟨hextended, hrefused, hwritten⟩
  refine ⟨hextended.of_nextLocals, ?_⟩
  by_cases hok : r = STATUS_OK
  · exact (hwritten hok).1
  · exact hrefused hok

/-- A token is three words and a text. -/
theorem writeInterfaceToken.extends {x : Calls ParcelProcess} {interface : BinderString}
    (h : Tidy c.parcel) (hfits : (Value.string interface).WellFormed) :
    wp (writeInterfaceToken x interface)
      (fun _ c' => Extended c c' ∧ c'.world = c.world) E c := by
  unfold writeInterfaceToken
  rw [wp_bind, wp_thisThread, wp_bind]
  refine wp_imp (writeValue.extends (v := .int32 _) h trivial) fun _ c₁ ⟨hpolicy, hworld₁⟩ => ?_
  rw [wp_bind]
  refine wp_imp (updateWorkSourceRequestHeaderPosition.advanced hpolicy.tidy.isLocal)
    fun _ c₂ ⟨a, _⟩ => ?_
  have hheader := hpolicy.trans (a.extended hpolicy.tidy)
  rw [wp_bind, wp_thisThread, wp_bind]
  refine wp_imp (writeValue.extends (v := .int32 _) hheader.tidy trivial)
    fun _ c₃ ⟨hsource, hworld₃⟩ => ?_
  rw [wp_bind]
  refine wp_imp (writeValue.extends (v := .int32 _) hsource.tidy trivial)
    fun _ c₄ ⟨hword, hworld₄⟩ => ?_
  refine wp_imp (writeValue.extends (v := .string interface) hword.tidy hfits)
    fun _ c₅ ⟨htext, hworld₅⟩ => ?_
  exact ⟨hheader.trans (hsource.trans (hword.trans htext)),
    by rw [hworld₅, hworld₄, hworld₃, a.world, hworld₁]⟩

/-- Whatever is written, what stands before it stays, and the parcel takes two references on an
object at most. -/
theorem writeOther.extends {other : OtherWrite} (h : Tidy c.parcel) (hfits : other.Fits t c.world)
    (hhas : Has t c.world.process) (hroom : ∀ a, t.strong a + t.weak a + 3 < 2 ^ 20) :
    wp (writeOther (ParcelProcess.calls (knot (n + 1)) o) other) (fun _ c' => Extended c c' ∧
      ∃ t', Takes 2 t t' ∧ Changed t' c.world c'.world) E c := by
  have hsame : ∀ c' : Ctx ParcelProcess, Extended c c' ∧ c'.world = c.world →
      Extended c c' ∧ ∃ t', Takes 2 t t' ∧ Changed t' c.world c'.world := by
    rintro c' ⟨hextended, hworld⟩
    refine ⟨hextended, t, .refl 2 t, ?_⟩
    rw [hworld]
    exact .refl hhas
  cases other with
  | file fd takeOwnership =>
    exact wp_imp (writeFileDescriptor.extends h) fun _ c' hc' => hsame c' hc'
  | token interface =>
    exact wp_imp (writeInterfaceToken.extends h hfits) fun _ c' hc' => hsame c' hc'
  | item it =>
    cases it with
    | value v => exact wp_imp (writeValue.extends h hfits) fun _ c' hc' => hsame c' hc'
    | nullBinder =>
      apply wp_imp (writeStrongBinder.extends_null h hhas)
      rintro _ c' ⟨hextended, hc, -⟩
      exact ⟨hextended, t, .refl 2 t, hc⟩
    | binder b =>
      apply wp_imp (writeStrongBinder.extends h hfits hhas (hroom _))
      rintro _ c' ⟨hextended, t', htakes, hc, -⟩
      exact ⟨hextended, t', htakes, hc⟩

theorem writeOthers.extends {others : List OtherWrite} (h : Tidy c.parcel)
    (hfits : ∀ other ∈ others, other.Fits t c.world) (hhas : Has t c.world.process)
    (hroom : ∀ a, t.strong a + t.weak a + 2 * others.length + 1 < 2 ^ 20) :
    wp (writeOthers (ParcelProcess.calls (knot (n + 1)) o) others) (fun _ c' => Extended c c' ∧
      ∃ t', Takes (2 * others.length) t t' ∧ Changed t' c.world c'.world) E c := by
  induction others generalizing c t with
  | nil => exact ⟨.refl h, t, .refl _ t, .refl hhas⟩
  | cons other others ih =>
    simp only [List.length_cons] at hroom
    unfold writeOthers
    rw [wp_bind]
    apply wp_imp (writeOther.extends h (hfits other (by simp)) hhas fun a => by
      have := hroom a
      omega)
    rintro _ c₁ ⟨hextended, t₁, htakes, hc₁⟩
    apply wp_imp (ih (t := t₁) hextended.tidy
      (fun later hmem => (hfits later (by simp [hmem])).later hc₁ htakes) hc₁.counts.has fun a => by
        have hleft := hroom a
        exact htakes.room (k := 2 * others.length + 1) (by omega))
    rintro _ c₂ ⟨hextended₂, t₂, htakes₂, hc₂⟩
    have hboth := htakes.trans htakes₂
    rw [show 2 + 2 * others.length = 2 * (other :: others).length by
      rw [List.length_cons]; omega] at hboth
    exact ⟨hextended.trans hextended₂, t₂, hboth, hc₁.trans hc₂⟩

/-! ## The law -/

/-- The level that was written behind the object at `pos`. -/
def levelAt (p : Parcel) (pos : Nat) : BitVec 32 :=
  bytesWord 32 (window p.cells (pos + FLAT_SIZE) 4)

/-- A binder `b` is written into a fresh parcel, between other writes. It is written between `c` and
`c₁`, and the last write ends in `c₂`. -/
structure BuiltAround (x : Calls ParcelProcess) (before after : List OtherWrite) (b : BitVec 64)
    (start c c₁ c₂ : Ctx ParcelProcess) : Prop where
  before : (do initState; writeOthers x before) start = .ok ((), c)
  written : writeStrongBinder x b c = .ok (STATUS_OK, c₁)
  after : writeOthers x after c₁ = .ok ((), c₂)

/-- The binder written between `c` and `c₁` is read in `c₂` from where it was written: it comes back
with the status, the read ends where the write did, and the binder has the level written. -/
def ComesBack (read : Prog (Ctx ParcelProcess) Fault (Int × Option (BitVec 64)))
    (c c₁ c₂ : Ctx ParcelProcess) (b : BitVec 64) (status : Int) : Prop :=
  ∃ c₃, (do setDataPosition c.parcel.mDataPos; read) c₂ = .ok ((status, some b), c₃) ∧
    c₃.parcel.mDataPos = c₁.parcel.mDataPos ∧
    (b ≠ 0 → (c₃.world.mStability b.toNat).signExtend 32 = levelAt c₁.parcel c.parcel.mDataPos)

/-- What runs gives the parcels. -/
theorem BuiltAround.of_runs {x : Calls ParcelProcess} {before after : List OtherWrite}
    {start : Ctx ParcelProcess}
    (h : wp (do initState; writeOthers x before) (fun _ c =>
      wp (writeStrongBinder x b) (fun r c₁ => r = STATUS_OK ∧
        wp (writeOthers x after) (fun _ _ => True) never c₁) never c) never start) :
    ∃ c c₁ c₂, BuiltAround x before after b start c c₁ c₂ := by
  obtain ⟨_, c, hbefore, hrest⟩ := wp_never_iff.mp h
  obtain ⟨_, c₁, hwritten, rfl, hrest⟩ := wp_never_iff.mp hrest
  obtain ⟨_, c₂, hafter, -⟩ := wp_never_iff.mp hrest
  exact ⟨c, c₁, c₂, hbefore, hwritten, hafter⟩

/-- A parcel is read from wherever the position is set back to. -/
theorem wp_readAt {α : Type} {pos : Nat} {read : Prog (Ctx ParcelProcess) Fault α}
    {Q : α → Ctx ParcelProcess → Prop} (h : Tidy c.parcel) (hpos : pos ≤ c.parcel.mDataPos) :
    wp (do setDataPosition pos; read) Q E c ↔ wp read Q E (c.mapParcel fun p =>
      { p with mDataPos := pos, mNextObjectHint := 0, mObjectsSorted := false }) := by
  have hmax : pos ≤ INT32_MAX := Nat.le_trans hpos
    (Nat.le_trans h.isLocal.pos (Nat.le_trans h.isLocal.size h.isLocal.capacity))
  rw [wp_bind, setDataPosition.spec hmax]

/-- A binder that stands where it was written comes back from there, whoever reads it on. -/
theorem Shown.comesBack {read : Prog (Ctx ParcelProcess) Fault (Int × Option (BitVec 64))}
    (hshown : Shown c₁.world c₁.parcel c.parcel.mDataPos b) (hafter : Extended c₁ c₂)
    (hend : c₁.parcel.mDataPos = c.parcel.mDataPos + (FLAT_SIZE + 4))
    (hc : Changed t c₁.world c₂.world)
    (hread : ∀ d : Ctx ParcelProcess, Legible d.parcel → d.world = c₂.world →
      d.parcel.mDataPos + (FLAT_SIZE + 4) ≤ d.parcel.mDataSize →
      Shown d.world d.parcel d.parcel.mDataPos b → wp read (fun r d' => r = (STATUS_OK, some b) ∧
        MovedOn d d' (FLAT_SIZE + 4) ∧
        Changed (t.more (Process.once b.toNat)) d.world d'.world) never d) :
    ComesBack read c c₁ c₂ b STATUS_OK := by
  have htidy := hafter.tidy
  have hpos := hafter.pos
  have hatEnd := htidy.atEnd
  have hplace : c.parcel.mDataPos ≤ c₂.parcel.mDataPos := by omega
  have hin : c.parcel.mDataPos + (FLAT_SIZE + 4) ≤ c₂.parcel.mDataSize := by omega
  have hstands : StandsAt c₁.world c₁.parcel c.parcel.mDataPos (.binder b) := hshown
  have hstill : Shown c₂.world c₂.parcel c.parcel.mDataPos b :=
    hstands.extended hafter hc (Nat.le_of_eq hend.symm)
  obtain ⟨_, c₃, hrun, rfl, hmoved, hc₃⟩ := wp_never_iff.mp ((wp_readAt htidy hplace).mpr
    (hread _ (htidy.legible hplace) rfl hin ⟨hstill.object, hstill.level, hstill.declared⟩))
  refine ⟨c₃, hrun, by rw [hmoved.pos, hend]; rfl, fun _ => ?_⟩
  have hlater : (c₃.world.mStability b.toNat) = c₂.world.mStability b.toNat :=
    hc₃.declared hstill.declared
  unfold levelAt
  rw [hlater, hc.declared hshown.declared, hshown.level, bytesWord_wordBytes (by rfl : 32 = 8 * 4)]

/-- Where no binder was written, its reader calls a function of NULL. -/
theorem not_comesBack_null {status : Int} {flags : BitVec 32} (hafter : Extended c₁ c₂)
    (hend : c₁.parcel.mDataPos = c.parcel.mDataPos + (FLAT_SIZE + 4))
    (hflat : window c₁.parcel.cells c.parcel.mDataPos FLAT_SIZE =
      FlatBinderObject.toBytes ⟨BINDER_TYPE_BINDER, flags, 0, 0⟩) :
    ¬ComesBack (readNullableStrongBinder (ParcelProcess.calls (knot n) o)) c c₁ c₂ b status := by
  have hpos := hafter.pos
  have hatEnd := hafter.tidy.atEnd
  rintro ⟨c₃, hrun, -⟩
  have hplace : c.parcel.mDataPos ≤ c₂.parcel.mDataPos := by omega
  have hwhole : c.parcel.mDataPos + FLAT_SIZE ≤ c₁.parcel.mDataPos := by omega
  have hin : c.parcel.mDataPos + FLAT_SIZE ≤ c₂.parcel.mDataSize := by omega
  have hfaults := (wp_readAt (E := (· = .inCall .nullPointer)) (Q := fun _ _ => False) hafter.tidy
    hplace).mpr (readNullableStrongBinder.faults (k := knot n) (o := o) (hafter.tidy.legible hplace)
      hin ((hafter.before _ _ hwhole).trans hflat) rfl)
  exact hfaults.of_ok hrun

/-- The writes before a binder make a tidy parcel, which holds what was written. -/
theorem BuiltAround.reaches {x : Calls ParcelProcess} {start : Ctx ParcelProcess}
    {before after : List OtherWrite} (hx : x = ParcelProcess.calls (knot (n + 1)) o)
    (h : BuiltAround x before after b start c c₁ c₂) (hhas : Has t start.world.process)
    (hfits : ∀ other ∈ before, other.Fits t start.world)
    (hroom : ∀ a, t.strong a + t.weak a + 2 * before.length + 1 < 2 ^ 20) :
    Tidy c.parcel ∧ ∃ t', Takes (2 * before.length) t t' ∧ Changed t' start.world c.world := by
  have hfresh : Tidy (start.mapParcel fun _ => empty).parcel := ⟨empty_local, rfl, by
    show Apart ([] ++ [0])
    decide⟩
  have hrun : wp (do initState; writeOthers x before) (fun _ d => Tidy d.parcel ∧
      ∃ t', Takes (2 * before.length) t t' ∧ Changed t' start.world d.world) never start := by
    unfold initState
    rw [wp_bind, wp_update, hx]
    apply wp_imp (writeOthers.extends hfresh hfits hhas hroom)
    rintro _ d ⟨hextended, hrest⟩
    exact ⟨hextended.tidy, hrest⟩
  exact hrun.of_ok h.before

section

variable {start : Ctx ParcelProcess} {before after : List OtherWrite}

/-- A binder comes back to either reader, whatever is written behind it. -/
theorem BuiltAround.comesBack
    (h : BuiltAround (ParcelProcess.calls (knot (n + 1)) o) before after b start c c₁ c₂)
    (htidy : Tidy c.parcel) (hhas : Has t c.world.process) (hb : Writable t c.world b)
    (hfits : ∀ other ∈ after, other.Fits t c.world)
    (hroom : ∀ a, t.strong a + t.weak a + (2 + (2 * after.length + 2)) < 2 ^ 20) :
    ComesBack (readNullableStrongBinder (ParcelProcess.calls (knot (n + 1)) o)) c c₁ c₂ b
        STATUS_OK ∧
      ComesBack (readStrongBinder (ParcelProcess.calls (knot (n + 1)) o)) c c₁ c₂ b STATUS_OK := by
  obtain ⟨hextended, t₁, htakes, hc, hstands⟩ :=
    (writeStrongBinder.extends (E := never) htidy hb hhas (by
      have := hroom b.toNat
      omega)).of_ok h.written
  obtain ⟨hheld, hend, hshown⟩ := hstands rfl
  have hroom₁ : ∀ a, t₁.strong a + t₁.weak a + (2 * after.length + 2) < 2 ^ 20 :=
    fun a => htakes.room (hroom a)
  obtain ⟨hafter, t₂, htakes₂, hc₂⟩ := (writeOthers.extends (E := never) hextended.tidy
    (fun other hmem => (hfits other hmem).later hc htakes) hc.counts.has fun a => by
      have := hroom₁ a
      omega).of_ok h.after
  -- the parcel still holds the binder when it is read
  have hsendable : ParcelProcess.Sendable t₂ c₂.world b :=
    ((hb.later hc htakes).later hc₂ htakes₂).sendable (Nat.lt_of_lt_of_le hheld (htakes₂.least _))
  have hroom₂ := htakes₂.room (hroom₁ b.toNat)
  constructor
  · refine hshown.comesBack hafter hend hc₂ fun d hlegible hworld hin hhere => ?_
    rw [← hworld] at hsendable hc₂
    exact readNullableStrongBinder.reads hsendable hc₂.counts.has hroom₂ hlegible hin hhere
  · refine hshown.comesBack hafter hend hc₂ fun d hlegible hworld hin hhere => ?_
    rw [← hworld] at hsendable hc₂
    exact readStrongBinder.reads hsendable hc₂.counts.has hroom₂ hlegible hin hhere

/-- A NULL does not. -/
theorem BuiltAround.not_comesBack {status : Int}
    (h : BuiltAround (ParcelProcess.calls (knot (n + 1)) o) before after 0 start c c₁ c₂)
    (htidy : Tidy c.parcel) (hhas : Has t c.world.process)
    (hfits : ∀ other ∈ after, other.Fits t c.world)
    (hroom : ∀ a, t.strong a + t.weak a + 2 * after.length + 1 < 2 ^ 20) :
    ¬ComesBack (readNullableStrongBinder (ParcelProcess.calls (knot (n + 1)) o)) c c₁ c₂ 0
      status := by
  obtain ⟨hextended, hc, hstands⟩ :=
    (writeStrongBinder.extends_null (E := never) htidy hhas).of_ok h.written
  obtain ⟨hend, flags, hflat⟩ := hstands rfl
  obtain ⟨hafter, -⟩ := (writeOthers.extends (E := never) hextended.tidy
    (fun other hmem => (hfits other hmem).later hc (.refl 0 t)) hc.counts.has hroom).of_ok h.after
  exact not_comesBack_null hafter hend hflat

end

/-- A binder that was written, with whatever before and behind it and whatever memory there was,
comes back from where it was written to either reader exactly where it is no NULL. -/
theorem binders_come_back_unless_null (n : Nat) (o : ParcelEnv) (start c c₁ c₂ : Ctx ParcelProcess)
    (t : Totals) (before after : List OtherWrite) (b : BitVec 64)
    (hhas : Has t start.world.process) (hb : b ≠ 0 → Writable t start.world b)
    (hothers : ∀ other ∈ before ++ after, other.Fits t start.world)
    (hroom : ∀ a, t.strong a + t.weak a + 2 * (before.length + after.length) + 4 < 2 ^ 20)
    (hbuilt : BuiltAround (ParcelProcess.calls (knot (n + 1)) o) before after b start c c₁ c₂) :
    (ComesBack (readNullableStrongBinder (ParcelProcess.calls (knot (n + 1)) o)) c c₁ c₂ b
        STATUS_OK ∧
      ComesBack (readStrongBinder (ParcelProcess.calls (knot (n + 1)) o)) c c₁ c₂ b
        (if b = 0 then STATUS_UNEXPECTED_NULL else STATUS_OK)) ↔ b ≠ 0 := by
  obtain ⟨htidy, t₁, htakes, hc⟩ :=
    hbuilt.reaches rfl hhas (fun other hmem => hothers other (by simp [hmem])) fun a => by
      have := hroom a
      omega
  have hroom₁ : ∀ a, t₁.strong a + t₁.weak a + (2 + (2 * after.length + 2)) < 2 ^ 20 :=
    fun a => htakes.room (by
      have := hroom a
      omega)
  have hfits : ∀ other ∈ after, other.Fits t₁ c.world :=
    fun other hmem => (hothers other (by simp [hmem])).later hc htakes
  by_cases hnull : b = 0
  · subst hnull
    have hroom₀ : ∀ a, t₁.strong a + t₁.weak a + 2 * after.length + 1 < 2 ^ 20 := fun a => by
      have := hroom₁ a
      omega
    exact ⟨fun hreads => absurd hreads.1 (hbuilt.not_comesBack htidy hc.counts.has hfits hroom₀),
      fun hne => absurd rfl hne⟩
  · rw [if_neg hnull]
    have hback := hbuilt.comesBack htidy hc.counts.has ((hb hnull).later hc htakes) hfits hroom₁
    exact ⟨fun _ => hnull, fun _ => hback⟩

theorem twoBinders_writable : Writable twoTotals twoBinders 8192 :=
  ⟨twoBinders_second.ne, twoBinders_second.known, fun _ _ => twoBinders_second.held,
    fun handle hsome => ⟨twoBinders_second.held, twoBinders_second.routed handle hsome⟩⟩

/-- A word and a binder of the process are written before a proxy, a NULL, a file and a token behind
it. -/
theorem a_proxy_comes_back : ∃ c c₁ c₂, BuiltAround (ParcelProcess.calls (knot 1) quietEnv)
      [.item (.value (.int32 7)), .item (.binder 4096)]
      [.item .nullBinder, .file 3 true, .token hi] 8192 ⟨empty, plenty, twoBinders⟩ c c₁ c₂ ∧
    ComesBack (readNullableStrongBinder (ParcelProcess.calls (knot 1) quietEnv)) c c₁ c₂ 8192
      STATUS_OK ∧
    ComesBack (readStrongBinder (ParcelProcess.calls (knot 1) quietEnv)) c c₁ c₂ 8192
      STATUS_OK := by
  obtain ⟨c, c₁, c₂, hbuilt⟩ : ∃ c c₁ c₂, BuiltAround (ParcelProcess.calls (knot 1) quietEnv)
      [.item (.value (.int32 7)), .item (.binder 4096)]
      [.item .nullBinder, .file 3 true, .token hi] 8192 ⟨empty, plenty, twoBinders⟩ c c₁ c₂ :=
    BuiltAround.of_runs (by decide +kernel)
  refine ⟨c, c₁, c₂, hbuilt, (binders_come_back_unless_null 0 quietEnv
    ⟨empty, plenty, twoBinders⟩ c c₁ c₂ twoTotals _ _ 8192 twoTotals_has
    (fun _ => twoBinders_writable) ?_ ?_ hbuilt).mpr (by decide)⟩
  · intro other hmem
    simp only [List.cons_append, List.nil_append, List.mem_cons, List.not_mem_nil, or_false] at hmem
    rcases hmem with rfl | rfl | rfl | rfl | rfl
    · trivial
    · exact ⟨twoBinders_first.ne, twoBinders_first.known, fun _ _ => twoBinders_first.held,
        fun _ hsome => by cases hsome⟩
    · trivial
    · trivial
    · exact ⟨_, hi_holds⟩
  · intro a
    show heldOnce a + 0 + 2 * (2 + 3) + 4 < 2 ^ 20
    unfold heldOnce
    split <;> decide

/-- A NULL is written, and either reader calls a function of NULL. -/
theorem a_null_binder_is_not_read_back : ∃ c₁ : Ctx ParcelProcess,
    BuiltAround (ParcelProcess.calls (knot 1) quietEnv) [] [] 0 ⟨empty, plenty, twoBinders⟩
      ⟨empty, plenty, twoBinders⟩ c₁ c₁ ∧
    (do setDataPosition 0; readNullableStrongBinder (ParcelProcess.calls (knot 1) quietEnv)) c₁ =
      .error (.inCall .nullPointer) ∧
    (do setDataPosition 0; readStrongBinder (ParcelProcess.calls (knot 1) quietEnv)) c₁ =
      .error (.inCall .nullPointer) := by
  obtain ⟨_, c₁, hwritten, rfl, hnullable, hstrong⟩ : ∃ r c₁,
      writeStrongBinder (ParcelProcess.calls (knot 1) quietEnv) 0 ⟨empty, plenty, twoBinders⟩ =
        .ok (r, c₁) ∧ r = STATUS_OK ∧
      wp (do setDataPosition 0; readNullableStrongBinder (ParcelProcess.calls (knot 1) quietEnv))
        (fun _ _ => False) (· = .inCall .nullPointer) c₁ ∧
      wp (do setDataPosition 0; readStrongBinder (ParcelProcess.calls (knot 1) quietEnv))
        (fun _ _ => False) (· = .inCall .nullPointer) c₁ := wp_never_iff.mp (by decide +kernel)
  exact ⟨c₁, ⟨rfl, hwritten, rfl⟩, wp_false_iff.mp hnullable, wp_false_iff.mp hstrong⟩

end Parcel

end system_binder
