-- What the writes of a parcel keep. All but the growth of the buffer leaves its owner, its room
-- and whether there is one, so a relation that sees no more is kept where `continueWrite` keeps it.
import SystemBinder.ParcelDelivered
import SystemBinder.ParcelTwins

open prog memory

namespace system_binder.Parcel

variable {W α β : Type}

/-! ## The buffer -/

/-- A buffer of the same owner with as much room. -/
structure SameBuffer (p p' : Parcel) : Prop where
  owner : p'.mOwner = p.mOwner
  zero : p'.mDeallocZero = p.mDeallocZero
  data : p'.mData.isSome = p.mData.isSome
  length : p'.cells.length = p.cells.length
  capacity : p'.mDataCapacity = p.mDataCapacity

/-- A relation that does not see what stands in a parcel, nor what happens outside. -/
class WriteFrame (R : Ctx W → Ctx W → Prop) : Prop where
  frame : Frame R fun _ (_ : Fault) => True
  parcel : ∀ c f, SameBuffer c.parcel (f c.parcel) → R c (c.mapParcel f)
  next : ∀ c, R c (c.mapHeap Heap.next)
  locals : ∀ c n, R c (c.mapHeap (Heap.nextLocals n))
  world : ∀ c w, R c (c.setWorld w)

/-- The program keeps `R`, if it returns. -/
abbrev Writes (R : Ctx W → Ctx W → Prop) (m : Prog (Ctx W) Fault α) : Prop :=
  Keeps R (fun _ _ => True) m

namespace Writes

variable {R : Ctx W → Ctx W → Prop} [WriteFrame R]

theorem frame : Frame R fun _ (_ : Fault) => True := WriteFrame.frame

theorem pure (a : α) : Writes R (pure a : Prog (Ctx W) Fault α) := frame.pure a

theorem bind {m : Prog (Ctx W) Fault α} {f : α → Prog (Ctx W) Fault β} (hm : Writes R m)
    (hf : ∀ a, Writes R (f a)) : Writes R (m >>= f) := frame.bind hm hf

omit [WriteFrame R] in
theorem fault (e : Fault) : Writes R (fault e : Prog (Ctx W) Fault α) := fun _ => trivial

theorem thisParcel : Writes R (thisParcel : Prog (Ctx W) Fault Parcel) := fun c => frame.refl c

theorem thisThread (x : Calls W) : Writes R (thisThread x) := fun c => frame.refl c

theorem update (f : Parcel → Parcel) (h : ∀ p, (f p).mOwner = p.mOwner ∧
    (f p).mDeallocZero = p.mDeallocZero ∧ (f p).mData = p.mData ∧
    (f p).mDataCapacity = p.mDataCapacity) : Writes R (update f : Prog (Ctx W) Fault Unit) := by
  intro c
  obtain ⟨howner, hzero, hdata, hcapacity⟩ := h c.parcel
  have hcells : (f c.parcel).cells = c.parcel.cells := by
    unfold Parcel.cells
    rw [hdata]
  exact WriteFrame.parcel c f ⟨howner, hzero, by rw [hdata], by rw [hcells], hcapacity⟩

theorem outside (m : Prog W Fault α) : Writes R (outside m) := by
  intro c
  rw [wp_outside]
  exact wp_of_all (fun _ w => WriteFrame.world c w) fun _ => trivial

theorem loadData (pos n : Nat) : Writes R (loadData pos n : Prog (Ctx W) Fault _) := fun c =>
  wp_imp loadData.keeps fun _ c' hc => by
    rw [hc]
    exact frame.refl c

theorem loadObject (i : Nat) : Writes R (loadObject i : Prog (Ctx W) Fault _) := fun c =>
  wp_loadObject_table fun _ _ => frame.refl c

theorem loadFlat (i : Nat) : Writes R (loadFlat i : Prog (Ctx W) Fault _) :=
  (loadObject i).bind fun _ => (loadData _ _).bind fun _ => pure _

theorem storeData (pos : Nat) (xs : List UInt8) :
    Writes R (storeData pos xs : Prog (Ctx W) Fault Unit) := by
  refine Keeps.of_result (fun c _ c' h => ?_) fun _ _ _ => trivial
  unfold system_binder.storeData at h
  split at h
  · split at h
    · cases h
      exact frame.refl c
    · cases h
  · rename_i b hd
    split at h
    · rename_i hin
      cases h
      have hlength : (overlay b.cells pos xs).length = c.parcel.cells.length := by
        rw [length_overlay hin]
        unfold Parcel.cells
        rw [hd]
        rfl
      exact WriteFrame.parcel c _ ⟨rfl, rfl, by simp [hd], hlength, rfl⟩
    · cases h

theorem storeObject (i o : Nat) : Writes R (storeObject i o : Prog (Ctx W) Fault Unit) := by
  refine Keeps.of_result (fun c _ c' h => ?_) fun _ _ _ => trivial
  unfold system_binder.storeObject at h
  split at h
  · cases h
  · split at h
    · cases h
      exact WriteFrame.parcel c _ ⟨rfl, rfl, rfl, rfl, rfl⟩
    · cases h

theorem allocate {γ : Type} (make : (Nat → Nat) → List γ) :
    Writes R (allocate make : Prog (Ctx W) Fault _) := fun c => WriteFrame.next c

theorem indeterminateObject :
    Writes R (indeterminateObject : Prog (Ctx W) Fault FlatBinderObject) := fun c =>
  WriteFrame.locals c 6

/-! ### What comes before the buffer grows -/

section Growing

variable (x : Outside W)

theorem keptObjects (desired n : Nat) :
    Writes R (keptObjects desired n : Prog (Ctx W) Fault Nat) := by
  induction n with
  | zero => exact pure _
  | succ n ih => exact (loadObject n).bind fun o => .ite (pure _) ih

theorem countKept (desired : Nat) : Writes R (countKept desired : Prog (Ctx W) Fault Nat) :=
  thisParcel.bind fun _ => .ite (.ite (pure _) (keptObjects desired _)) (pure _)

theorem releaseUp (i n : Nat) : Writes R (releaseUp x i n) := by
  induction n generalizing i with
  | zero => exact pure _
  | succ n ih =>
    have hrest (obj : FlatBinderObject) : Writes R (do
        system_binder.outside (release_object x obj)
        Parcel.releaseUp x (i + 1) n) := (outside _).bind fun _ => ih (i + 1)
    exact (loadFlat i).bind fun obj =>
      .ite (bind (update _ fun _ => ⟨rfl, rfl, rfl, rfl⟩) fun _ => hrest obj) (hrest obj)

theorem dropObjects (objectsSize : Nat) : Writes R (dropObjects x objectsSize) := by
  have hend : Writes R (system_binder.update (fun p => { p with
      mObjectsSize := objectsSize, mNextObjectHint := 0, mObjectsSorted := false }) :
      Prog (Ctx W) Fault Unit) := update _ fun _ => ⟨rfl, rfl, rfl, rfl⟩
  refine thisParcel.bind fun p => (releaseUp x _ _).bind fun _ => .ite ?_ ?_
  · exact bind (update _ fun _ => ⟨rfl, rfl, rfl, rfl⟩) fun _ => hend
  · refine (allocate _).bind fun objects => ?_
    cases objects with
    | none => exact hend
    | some t => exact bind (update _ fun _ => ⟨rfl, rfl, rfl, rfl⟩) fun _ => hend

theorem releaseDown (n : Nat) : Writes R (releaseDown x n) := by
  induction n with
  | zero => exact pure _
  | succ n ih => exact (loadFlat n).bind fun _ => (outside _).bind fun _ => ih

theorem acquireDown (n : Nat) : Writes R (acquireDown x n) := by
  induction n with
  | zero => exact pure _
  | succ n ih => exact (loadFlat n).bind fun _ => (outside _).bind fun _ => ih

theorem closeDown (n : Nat) : Writes R (closeDown x n) := by
  induction n with
  | zero => exact pure _
  | succ n ih =>
    exact (loadFlat n).bind fun _ => .ite ((outside _).bind fun _ => ih) ih

theorem callOwner (relFunc : ReleaseFunc) : Writes R (callOwner x relFunc) := by
  cases relFunc with
  | freeBuffer =>
    exact (thisParcel.bind fun _ => closeDown x _).bind fun _ =>
      thisParcel.bind fun _ => outside _

end Growing

/-! ### What is received -/

theorem checkObjects (n i minOffset : Nat) :
    Writes R (checkObjects n i minOffset : Prog (Ctx W) Fault Unit) := by
  induction n generalizing i minOffset with
  | zero => exact pure _
  | succ n ih =>
    have hwithout : Writes R (system_binder.update withoutObjects : Prog (Ctx W) Fault Unit) :=
      update _ fun _ => ⟨rfl, rfl, rfl, rfl⟩
    exact (loadObject i).bind fun _ => .ite hwithout ((loadData _ 4).bind fun _ =>
      .ite (ih _ _) hwithout)

theorem scanFrom (offset len n i : Nat) :
    Writes R (scanFrom offset len n i : Prog (Ctx W) Fault Bool) := by
  induction n generalizing i with
  | zero => exact pure _
  | succ n ih =>
    refine (loadObject i).bind fun _ => .ite (ih _) (.ite ?_ ?_)
    · exact thisParcel.bind fun _ => .ite (pure _) (ih _)
    · exact (loadData _ 4).bind fun _ => .ite (pure _) (ih _)

theorem scanForFds : Writes R (scanForFds : Prog (Ctx W) Fault Unit) := by
  have hrange (size : Nat) :
      Writes R (hasFileDescriptorsInRange 0 size : Prog (Ctx W) Fault (Int × Option Bool)) :=
    thisParcel.bind fun _ => .ite (pure _) (.ite (pure _) ((scanFrom _ _ _ _).bind fun _ => pure _))
  have hsize : Writes R (dataSize : Prog (Ctx W) Fault Nat) := thisParcel.bind fun _ => pure _
  exact hsize.bind fun _ => (hrange _).bind fun _ => update _ fun _ => ⟨rfl, rfl, rfl, rfl⟩

/-! ### The writes -/

section Writing

variable {x : Outside W} (hgrow : ∀ desired, Writes R (continueWrite x desired))

include hgrow

theorem growData (len : Nat) : Writes R (growData x len) :=
  .ite (pure _) (thisParcel.bind fun _ => .ite (pure _) (.ite (pure _)
    (.ite (pure _) (hgrow _))))

omit hgrow in
theorem finishWrite (len : Nat) : Writes R (finishWrite len : Prog (Ctx W) Fault Int) :=
  .ite (pure _) (bind (update _ fun _ => ⟨rfl, rfl, rfl, rfl⟩) fun _ => pure _)

theorem writeAligned (bs : List UInt8) : Writes R (writeAligned x bs) := by
  have hstore : Writes R (storeAligned bs : Prog (Ctx W) Fault Int) :=
    thisParcel.bind fun _ => (storeData _ _).bind fun _ => finishWrite _
  exact thisParcel.bind fun _ =>
    .ite hstore ((growData hgrow _).bind fun _ => .ite hstore (pure _))

omit hgrow in
theorem claimInplace (len : Nat) :
    Writes R (claimInplace len : Prog (Ctx W) Fault (Option Nat)) := by
  have hend (o : Option Nat) : Writes R (do
      let _ ← Parcel.finishWrite (padSize len)
      Pure.pure o : Prog (Ctx W) Fault (Option Nat)) := (finishWrite _).bind fun _ => pure _
  exact thisParcel.bind fun _ =>
    .ite ((loadData _ _).bind fun _ => (storeData _ _).bind fun _ => hend _) (hend _)

theorem writeInplace (len : Nat) : Writes R (writeInplace x len) :=
  .ite (pure _) (thisParcel.bind fun _ => .ite (pure _) (.ite (claimInplace len)
    ((growData hgrow _).bind fun _ => .ite (claimInplace len) (pure _))))

omit hgrow in
theorem mError : Writes R (do
    let p ← system_binder.thisParcel
    Pure.pure p.mError : Prog (Ctx W) Fault Int) := thisParcel.bind fun _ => pure _

theorem write (data : List UInt8) : Writes R (write x data) := by
  refine .ite (pure _) ((writeInplace hgrow _).bind fun o => ?_)
  cases o with
  | none => exact mError
  | some d => exact (storeData _ _).bind fun _ => pure _

theorem writeString16 (str : Option BinderString) : Writes R (writeString16 x str) := by
  cases str with
  | none => exact writeAligned hgrow _
  | some str =>
    have hcopy : Writes R (str.copyTo str.mSize : Prog (Ctx W) Fault (List UInt8)) :=
      .ite (pure _) (fault _)
    refine (writeAligned hgrow _).bind fun err =>
      .ite ((writeInplace hgrow _).bind fun o => ?_) (pure _)
    cases o with
    | none => exact mError
    | some data =>
      exact hcopy.bind fun text => (storeData _ _).bind fun _ => (storeData _ _).bind fun _ =>
        pure _

omit hgrow in
theorem listFlat (val : FlatBinderObject) (nullMetaData : Bool) :
    Writes R (listFlat x val nullMetaData) :=
  .ite (thisParcel.bind fun _ => (storeObject _ _).bind fun _ => (outside _).bind fun _ =>
    bind (update _ fun _ => ⟨rfl, rfl, rfl, rfl⟩) fun _ => finishWrite _) (finishWrite _)

omit hgrow in
theorem storeFlat (val : FlatBinderObject) (nullMetaData : Bool) :
    Writes R (storeFlat x val nullMetaData) :=
  thisParcel.bind fun _ => (storeData _ _).bind fun _ =>
    .ite (.ite (pure _) (bind (update _ fun _ => ⟨rfl, rfl, rfl, rfl⟩) fun _ =>
      listFlat val nullMetaData)) (listFlat val nullMetaData)

omit hgrow in
theorem growObjects : Writes R (growObjects : Prog (Ctx W) Fault Int) := by
  refine thisParcel.bind fun p => .ite (pure _) (.ite (pure _) (.ite (pure _) ?_))
  refine (allocate _).bind fun objects => ?_
  cases objects with
  | none => exact pure _
  | some t => exact bind (update _ fun _ => ⟨rfl, rfl, rfl, rfl⟩) fun _ => pure _

theorem writeObject (val : FlatBinderObject) (nullMetaData : Bool) :
    Writes R (writeObject x val nullMetaData) := by
  have hlist (enough : Bool) : Writes R (listWithRoom x enough val nullMetaData) :=
    .ite (storeFlat val nullMetaData) (growObjects.bind fun _ =>
      .ite (storeFlat val nullMetaData) (pure _))
  exact thisParcel.bind fun _ => .ite (hlist _) ((growData hgrow _).bind fun _ =>
    .ite (hlist _) (pure _))

theorem setDataSize (size : Nat) : Writes R (setDataSize x size) :=
  .ite (pure _) ((hgrow size).bind fun _ =>
    .ite (bind (update _ fun _ => ⟨rfl, rfl, rfl, rfl⟩) fun _ => pure _) (pure _))

theorem setDataCapacity (size : Nat) : Writes R (setDataCapacity x size) :=
  .ite (pure _) (thisParcel.bind fun _ => .ite (hgrow size) (pure _))

omit hgrow in
theorem setDataPosition (pos : Nat) :
    Writes R (setDataPosition pos : Prog (Ctx W) Fault Unit) :=
  .ite (fault _) (update _ fun _ => ⟨rfl, rfl, rfl, rfl⟩)

end Writing

section Calling

variable {x : Calls W} (hgrow : ∀ desired, Writes R (continueWrite x.toOutside desired))

include hgrow

theorem runWrite (w : MessageWrite) : Writes R (runWrite x w) := by
  cases w with
  | int32 val => exact writeAligned hgrow _
  | bool val => exact writeAligned hgrow _
  | pointer val => exact writeAligned hgrow _
  | blob data => exact write hgrow data
  | string16 str => exact writeString16 hgrow str
  | fileDescriptor fd takeOwnership =>
    exact indeterminateObject.bind fun obj => writeObject hgrow _ _
  | strongBinder val =>
    refine indeterminateObject.bind fun obj => (outside _).bind fun obj =>
      (writeObject hgrow _ _).bind fun status => .ite (pure _) ?_
    exact (outside _).bind fun _ => (outside _).bind fun rep => writeAligned hgrow _

theorem writeInterfaceToken (interface : BinderString) :
    Writes R (writeInterfaceToken x interface) := by
  have hposition : Writes R (updateWorkSourceRequestHeaderPosition : Prog (Ctx W) Fault Unit) :=
    thisParcel.bind fun _ => .ite (update _ fun _ => ⟨rfl, rfl, rfl, rfl⟩) (pure _)
  exact (thisThread x).bind fun _ => (writeAligned hgrow _).bind fun _ => hposition.bind fun _ =>
    (thisThread x).bind fun _ => (writeAligned hgrow _).bind fun _ =>
      (writeAligned hgrow _).bind fun _ => writeString16 hgrow _

end Calling

end Writes

end system_binder.Parcel
