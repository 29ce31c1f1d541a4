-- Where a Parcel finds no room: what a growth that fails leaves of the message.
import SystemBinder.ParcelSensitive
import SystemBinder.ParcelStores

open prog memory

namespace system_binder.Parcel

variable {W : Type} {x : Outside W} {c c' : Ctx W} {E : Fault → Prop}

/-! ## What a failed growth leaves -/

/-- The bytes of the message, its size, the position and the list of objects are the same. -/
structure SameMessage (c c' : Ctx W) : Prop where
  size : c'.parcel.mDataSize = c.parcel.mDataSize
  pos : c'.parcel.mDataPos = c.parcel.mDataPos
  bytes : window c'.parcel.cells 0 c.parcel.mDataSize = window c.parcel.cells 0 c.parcel.mDataSize
  list : retained c'.parcel = retained c.parcel

theorem SameMessage.refl : SameMessage c c := ⟨rfl, rfl, rfl, rfl⟩

theorem SameMessage.of_parcel (h : c'.parcel = c.parcel) : SameMessage c c' := by
  constructor <;> rw [h]

theorem SameMessage.trans {c'' : Ctx W} (a : SameMessage c c') (b : SameMessage c' c'') :
    SameMessage c c'' where
  size := b.size.trans a.size
  pos := b.pos.trans a.pos
  bytes := by
    have h := b.bytes
    rw [a.size] at h
    exact h.trans a.bytes
  list := b.list.trans a.list

theorem OutOfMemory.same (h : OutOfMemory c c') : SameMessage c c' := by
  constructor <;> rw [h.parcel] <;> rfl

theorem Fitted.same {n : Nat} (f : Fitted c c' n) : SameMessage c c' :=
  ⟨f.size, f.pos, f.bytes 0 _ (by omega), f.list⟩

/-- A status other than OK leaves the message. -/
abbrev FailsClean (m : Prog (Ctx W) Fault Int) (c : Ctx W) : Prop :=
  wp m (fun r c' => r ≠ STATUS_OK → SameMessage c c') (fun _ => True) c

/-- Own data that is large enough is not asked for. -/
theorem resizeOwn.fails {n : Nat} {data : Block UInt8} (h : n ≤ c.parcel.mDataCapacity) :
    wp (resizeOwn n data) (fun r _ => r = STATUS_OK) E c := by
  rw [resizeOwn.spec_clip h]

theorem continueWrite.fails {n : Nat} (s : Sound c.parcel) : FailsClean (continueWrite x n) c := by
  by_cases hbig : INT32_MAX < n
  · unfold FailsClean continueWrite
    rw [if_pos hbig]
    exact fun _ => .refl
  have hn := Nat.le_of_not_lt hbig
  by_cases howner : c.parcel.mOwner = none
  · have hstarved : STATUS_NO_MEMORY ≠ STATUS_OK → SameMessage c (starved c) :=
      fun _ => OutOfMemory.same ⟨rfl, rfl, rfl⟩
    by_cases hcap : c.parcel.mDataCapacity < n
    · unfold FailsClean
      rw [continueWrite.spec_grow s.toFramed s.starts howner hn hcap]
      split
      · exact hstarved
      · exact fun hne => absurd rfl hne
    have hcap := Nat.le_of_not_lt hcap
    cases hd : c.parcel.mData with
    | none =>
      unfold FailsClean
      rw [continueWrite.spec_first s.toFramed s.starts howner hn hd]
      split
      · exact hstarved
      · exact fun hne => absurd rfl hne
    | some data =>
      have ho : ¬c.parcel.mOwner.isSome = true := by
        rw [howner]
        exact Bool.false_ne_true
      have hresize : ∀ d : Ctx W, d.parcel.mDataCapacity = c.parcel.mDataCapacity →
          wp (resizeOwn n data) (fun r c' => r ≠ STATUS_OK → SameMessage c c')
            (fun _ => True) d := fun d hd =>
        wp_imp (resizeOwn.fails (by rwa [hd])) fun _ _ hr hne => absurd hr hne
      unfold FailsClean continueWrite
      rw [if_neg hbig]
      simp only [wp_bind, wp_thisParcel]
      rw [countKept.spec s.objects, if_neg ho]
      simp only [hd, wp_ite, wp_bind]
      refine ⟨fun _ => ?_, fun _ => hresize c rfl⟩
      refine wp_imp (Writes.dropObjects (R := Untouched) x _ c) ?_
      exact fun _ d u => hresize d u.capacity
  · have ho : c.parcel.mOwner.isSome = true := Option.isSome_iff_ne_none.mpr howner
    unfold FailsClean continueWrite
    rw [if_neg hbig]
    simp only [wp_bind, wp_thisParcel]
    rw [countKept.spec s.objects, if_pos ho]
    by_cases h0 : n = 0
    · unfold continueOwned
      rw [if_pos h0, wp_bind]
      exact wp_of_all (fun _ _ hne => absurd rfl hne) fun _ => trivial
    · refine wp_imp (continueOwned.takes s.toFramed ho h0 (kept_le _ _)) fun r c' h hne => ?_
      rcases h with ⟨hr, -⟩ | ⟨-, hnone⟩
      · exact absurd hr hne
      · exact hnone.same

theorem growData.fails {len : Nat} (s : Sound c.parcel) : FailsClean (growData x len) c := by
  unfold FailsClean growData
  simp only [wp_ite, wp_pure, wp_bind, wp_thisParcel]
  refine ⟨fun _ _ => .refl, fun _ => ⟨fun _ _ => .refl, fun _ => ⟨fun _ _ => .refl, fun _ =>
    ⟨fun _ _ => .refl, fun _ => continueWrite.fails s⟩⟩⟩⟩

/-- A table that cannot grow stays as it is. -/
theorem growObjects.fails :
    wp growObjects (fun r c' => r ≠ STATUS_OK → c'.parcel = c.parcel) E c := by
  unfold growObjects
  simp only [wp_ite, wp_pure, wp_bind, wp_thisParcel]
  refine ⟨fun _ _ => trivial, fun _ => ⟨fun _ _ => trivial, fun _ => ⟨fun _ _ => trivial, fun _ => ?_⟩⟩⟩
  unfold reallocObjects
  rw [wp_allocate]
  rcases c.heap.fresh c.heap.requests with _ | g
  · exact fun _ => rfl
  · exact fun hne => absurd rfl hne

/-! ## The operations that grow -/

/-- An operation that may need more room. -/
inductive Growing
  | writeInt32 (val : BitVec 32)
  | writePointer (val : BitVec 64)
  | write (data : List UInt8)
  | writeObject (val : FlatBinderObject) (nullMetaData : Bool)
  | setDataSize (size : Nat)
  | setDataCapacity (size : Nat)

def runGrowing (x : Outside W) : Growing → Prog (Ctx W) Fault Int
  | .writeInt32 val => Parcel.writeInt32 x val
  | .writePointer val => Parcel.writePointer x val
  | .write data => Parcel.write x data
  | .writeObject val nullMetaData => Parcel.writeObject x val nullMetaData
  | .setDataSize size => Parcel.setDataSize x size
  | .setDataCapacity size => Parcel.setDataCapacity x size

/-- The room for `len` bytes at the position, which is there or is grown by `asked` bytes. -/
def roomFor (x : Outside W) (len asked : Nat) : Prog (Ctx W) Fault Int := do
  let p ← thisParcel
  if sz (p.mDataPos + len) ≤ p.mDataCapacity then pure STATUS_OK else growData x asked

/-- The room for one more entry of the object table. -/
def roomForEntry (enoughObjects : Bool) : Prog (Ctx W) Fault Int :=
  if enoughObjects = true then pure STATUS_OK else growObjects

/-- The growth that an operation needs: OK where it succeeds, or where there is room already. -/
def growthOf (x : Outside W) : Growing → Prog (Ctx W) Fault Int
  | .writeInt32 _ => roomFor x 4 4
  | .writePointer _ => roomFor x 8 8
  | .write data =>
    if INT32_MAX < data.length then pure STATUS_BAD_VALUE
    else roomFor x (padSize data.length) (padSize data.length)
  | .writeObject _ _ => do
    let p ← thisParcel
    let err ← roomFor x FLAT_SIZE 8
    if err = STATUS_OK then roomForEntry (decide (p.mObjectsSize < p.mObjectsCapacity))
    else pure err
  | .setDataSize size =>
    if INT32_MAX < size then pure STATUS_BAD_VALUE else continueWrite x size
  | .setDataCapacity size => do
    let p ← thisParcel
    if INT32_MAX < size then pure STATUS_BAD_VALUE
    else if p.mDataCapacity < size then continueWrite x size else pure STATUS_OK

/-- Room that could not be had was asked of `growData`. -/
theorem roomFor_fails {len asked : Nat} {err : Int} {c₁ : Ctx W}
    (h : roomFor x len asked c = .ok (err, c₁)) (herr : err ≠ STATUS_OK) :
    ¬sz (c.parcel.mDataPos + len) ≤ c.parcel.mDataCapacity ∧
      growData x asked c = .ok (err, c₁) := by
  by_cases hroom : sz (c.parcel.mDataPos + len) ≤ c.parcel.mDataCapacity
  · have hok : roomFor x len asked c = .ok (STATUS_OK, c) := by
      unfold roomFor
      show (if _ then pure STATUS_OK else growData x asked : Prog (Ctx W) Fault Int) c = _
      rw [if_pos hroom]
      rfl
    rw [hok] at h
    cases h
    exact absurd rfl herr
  · refine ⟨hroom, ?_⟩
    have hgrow : roomFor x len asked c = growData x asked c := by
      unfold roomFor
      show (if _ then pure STATUS_OK else growData x asked : Prog (Ctx W) Fault Int) c = _
      rw [if_neg hroom]
    rw [← hgrow, h]

theorem roomFor.fails {len asked : Nat} (s : Sound c.parcel) :
    FailsClean (roomFor x len asked) c := by
  unfold FailsClean roomFor
  simp only [wp_bind, wp_thisParcel, wp_ite, wp_pure]
  exact ⟨fun _ hne => absurd rfl hne, fun _ => growData.fails s⟩

/-- Room for an object: asked for the size of a pointer, `growData` gives room for all of it. -/
theorem roomFor.same {c₁ : Ctx W} (s : Sound c.parcel)
    (h : roomFor x FLAT_SIZE 8 c = .ok (STATUS_OK, c₁)) : SameMessage c c₁ := by
  have hwp : wp (roomFor x FLAT_SIZE 8) (fun r c' => r = STATUS_OK → SameMessage c c')
      (fun _ => True) c := by
    have hgrow := flat_le_growthSize c.parcel.mDataSize
    have hpos := s.pos
    unfold roomFor
    simp only [wp_bind, wp_thisParcel, wp_ite, wp_pure]
    refine ⟨fun _ _ => .refl, fun hfull => ?_⟩
    rw [s.sz_pos (by decide)] at hfull
    refine wp_imp (growData.grows s (by decide) (by omega)) ?_
    rintro r c' (⟨-, rfl, -⟩ | ⟨-, rfl, -⟩ | ⟨-, -, f⟩) hok
    · exact absurd hok (by decide)
    · exact absurd hok (by decide)
    · exact f.same
  exact hwp.of_ok h rfl

theorem writeAligned.stops {bs : List UInt8} {err : Int} {c₁ : Ctx W}
    (h : roomFor x bs.length bs.length c = .ok (err, c₁)) (herr : err ≠ STATUS_OK) :
    wp (writeAligned x bs) (fun _ c' => c' = c₁) never c := by
  obtain ⟨hfull, hgrow⟩ := roomFor_fails h herr
  unfold writeAligned
  simp only [wp_bind, wp_thisParcel]
  rw [if_neg hfull, wp_bind, wp_of_ok hgrow, if_neg herr]
  rfl

theorem listWithRoom.stops {enoughObjects nullMetaData : Bool} {val : FlatBinderObject} {err : Int}
    {c₁ : Ctx W} (h : wp (roomForEntry enoughObjects) (fun r c' => r = err ∧ c' = c₁) never c)
    (herr : err ≠ STATUS_OK) :
    wp (listWithRoom x enoughObjects val nullMetaData) (fun _ c' => c' = c₁) never c := by
  unfold roomForEntry at h
  unfold listWithRoom
  simp only [wp_ite, wp_pure, wp_bind] at h ⊢
  refine ⟨fun henough => absurd (h.1 henough).1.symm herr, fun hfull => ?_⟩
  refine wp_imp (h.2 hfull) fun r c' hr => ?_
  exact ⟨fun hok => absurd (hr.1.symm.trans hok) herr, fun _ => hr.2⟩

/-- Where its growth fails, an operation has done nothing else. -/
theorem runGrowing.stops {op : Growing} {err : Int} {c₁ : Ctx W} (s : Sound c.parcel)
    (h : growthOf x op c = .ok (err, c₁)) (herr : err ≠ STATUS_OK) :
    wp (runGrowing x op) (fun _ c' => c' = c₁) never c := by
  have hrun : wp (growthOf x op) (fun r c' => r = err ∧ c' = c₁) never c :=
    (wp_of_ok h).mpr ⟨rfl, rfl⟩
  cases op with
  | writeInt32 val =>
    apply writeAligned.stops _ herr
    rwa [length_wordBytes]
  | writePointer val =>
    apply writeAligned.stops _ herr
    rwa [length_wordBytes]
  | write data =>
    show wp (Parcel.write x data) _ never c
    unfold growthOf roomFor at hrun
    unfold Parcel.write writeInplace
    simp only [wp_ite, wp_pure, wp_bind, wp_thisParcel] at hrun ⊢
    refine ⟨fun hlong => (hrun.1 hlong).2, fun hfit => ⟨fun hlong => absurd hlong hfit, fun _ => ?_⟩⟩
    have hpad := padSize_of_le (Nat.le_of_not_lt hfit)
    have hsz := s.sz_pos (n := padSize data.length) (by unfold INT32_MAX at hfit; omega)
    refine ⟨fun hwrap => absurd hwrap (by omega), fun _ => ?_⟩
    refine ⟨fun hroom => absurd ((hrun.2 hfit).1 hroom).1.symm herr, fun hfull => ?_⟩
    refine wp_imp ((hrun.2 hfit).2 hfull) fun r c' hr => ?_
    exact ⟨fun hok => absurd (hr.1.symm.trans hok) herr, fun _ => hr.2⟩
  | writeObject val nullMetaData =>
    show wp (Parcel.writeObject x val nullMetaData) _ never c
    unfold growthOf roomFor at hrun
    unfold Parcel.writeObject
    simp only [wp_ite, wp_pure, wp_bind, wp_thisParcel] at hrun ⊢
    refine ⟨fun hroom => listWithRoom.stops ((hrun.1 hroom).1 trivial) herr, fun hfull => ?_⟩
    refine wp_imp (hrun.2 hfull) fun r c' hr => ⟨fun hok => ?_, fun hne => (hr.2 hne).2⟩
    exact listWithRoom.stops (hr.1 hok) herr
  | setDataSize size =>
    show wp (Parcel.setDataSize x size) _ never c
    unfold growthOf at hrun
    unfold Parcel.setDataSize
    simp only [wp_ite, wp_pure, wp_bind] at hrun ⊢
    refine ⟨fun hlong => (hrun.1 hlong).2, fun hfit => wp_imp (hrun.2 hfit) fun r c' hr => ?_⟩
    exact ⟨fun hok => absurd (hr.1.symm.trans hok) herr, fun _ => hr.2⟩
  | setDataCapacity size =>
    show wp (Parcel.setDataCapacity x size) _ never c
    unfold growthOf at hrun
    unfold Parcel.setDataCapacity
    simp only [wp_ite, wp_pure, wp_bind, wp_thisParcel] at hrun ⊢
    refine ⟨fun hlong => (hrun.1 hlong).2, fun hfit => ⟨fun hless => ?_, fun hmore => ?_⟩⟩
    · exact wp_imp ((hrun.2 hfit).1 hless) fun _ _ hr => hr.2
    · exact ((hrun.2 hfit).2 hmore).2

theorem growthOf.fails {op : Growing} (s : Sound c.parcel) : FailsClean (growthOf x op) c := by
  cases op with
  | writeInt32 val => exact roomFor.fails s
  | writePointer val => exact roomFor.fails s
  | write data =>
    unfold growthOf FailsClean
    rw [wp_ite]
    exact ⟨fun _ _ => .refl, fun _ => roomFor.fails s⟩
  | writeObject val nullMetaData =>
    unfold growthOf FailsClean
    simp only [wp_bind, wp_thisParcel]
    refine wp_of_result (fun err c₁ hrun => ?_) fun _ _ => trivial
    rw [wp_ite]
    refine ⟨fun hok => ?_, fun hne _ => wp.of_ok (roomFor.fails s) hrun hne⟩
    subst hok
    have hsame := roomFor.same s hrun
    unfold roomForEntry
    rw [wp_ite]
    refine ⟨fun _ hne => absurd rfl hne, fun _ => wp_imp growObjects.fails fun r c' h hne => ?_⟩
    exact hsame.trans (.of_parcel (h hne))
  | setDataSize size =>
    unfold growthOf FailsClean
    rw [wp_ite]
    exact ⟨fun _ _ => .refl, fun _ => continueWrite.fails s⟩
  | setDataCapacity size =>
    unfold growthOf FailsClean
    simp only [wp_bind, wp_thisParcel, wp_ite, wp_pure]
    exact ⟨fun _ _ => .refl, fun _ => ⟨fun _ => continueWrite.fails s, fun _ hne => absurd rfl hne⟩⟩

/-- Where the growth that an operation needs fails, for want of memory or over the limit, the
operation ends there, and the message is as it was. -/
theorem a_failed_growth_leaves_the_message (x : Outside W) (op : Growing) (c c₁ : Ctx W) (err : Int)
    (s : Sound c.parcel) (h : growthOf x op c = .ok (err, c₁)) (herr : err ≠ STATUS_OK) :
    (∃ r, runGrowing x op c = .ok (r, c₁)) ∧ SameMessage c c₁ := by
  obtain ⟨r, c', hrun, rfl⟩ := wp_never_iff.mp (runGrowing.stops s h herr)
  exact ⟨⟨r, hrun⟩, wp.of_ok (growthOf.fails s) h herr⟩

/-- A parcel over a word and a handle of the driver, with the position at the end. -/
def lent : Parcel :=
  { empty with
    mData := some wordAndHandle
    mDataSize := 28
    mDataCapacity := 28
    mDataPos := 28
    mObjects := some ⟨1, [4]⟩
    mObjectsSize := 1
    mObjectsCapacity := 1
    mOwner := some .freeBuffer }

theorem lent_borrowed : Borrowed lent where
  owner := rfl
  data := rfl
  full := rfl
  disowned := by
    refine ⟨rfl, by decide, by decide, by decide, rfl, by decide, rfl, ?_⟩
    intro i o hi ho
    have h0 : i = 0 := Nat.lt_one_iff.mp hi
    subst h0
    cases ho
    decide

/-- The copy of the data is made, but there is no memory for the copy of the offsets. -/
theorem a_failed_copy_leaves_the_message : ∃ c₁ : Ctx Unit,
    (∃ r, runGrowing silent (.writeInt32 5) ⟨lent, failsOnce, ()⟩ = .ok (r, c₁)) ∧
      SameMessage ⟨lent, failsOnce, ()⟩ c₁ := by
  obtain ⟨err, c₁, hrun, herr⟩ : ∃ (err : Int) (c₁ : Ctx Unit),
      growthOf silent (.writeInt32 5) ⟨lent, failsOnce, ()⟩ = .ok (err, c₁) ∧ err ≠ STATUS_OK :=
    wp_never_iff.mp (by decide +kernel)
  exact ⟨c₁, a_failed_growth_leaves_the_message silent _ _ c₁ err lent_borrowed.sound hrun herr⟩

end system_binder.Parcel
