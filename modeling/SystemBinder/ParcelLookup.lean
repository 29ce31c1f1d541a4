-- Which objects of a delivered buffer a parcel hands out: the two searches of the object table,
-- and what reads in any order leave of it.
import SystemBinder.ParcelDelivered
import SystemBinder.ParcelPeer

open prog memory

namespace system_binder.Parcel

variable {W : Type} {c : Ctx W} {E : Fault → Prop} {dpos : Nat}

/-! ## The searches -/

/-- The entries of the object table that count. -/
def retained (p : Parcel) : List Nat := p.table.take p.mObjectsSize

/-- Objects at these offsets lie one behind the other. -/
def Apart (offsets : List Nat) : Prop := offsets.Pairwise fun a b => a + FLAT_SIZE ≤ b

instance (offsets : List Nat) : Decidable (Apart offsets) := by
  unfold Apart
  infer_instance

theorem Apart.lt {l : List Nat} (h : Apart l) {i j : Nat} (hij : i < j) (hj : j < l.length) :
    l[i] < l[j] := by
  have hle := List.pairwise_iff_getElem.mp h i j (by omega) hj hij
  unfold FLAT_SIZE at hle
  omega

theorem wp_loadObject_retained {Q : Nat → Ctx W → Prop} {i : Nat}
    (hi : i < (retained c.parcel).length) :
    wp (loadObject i) Q E c ↔ Q (retained c.parcel)[i] c := by
  have hget : c.parcel.table[i]? = some (retained c.parcel)[i] := by
    unfold retained at hi ⊢
    rw [List.length_take] at hi
    rw [List.getElem_take, List.getElem?_eq_getElem (by omega)]
  rw [wp_loadObject hget]

/-- The search ahead stops at the end, or at the first entry that is not before `dpos`. -/
theorem searchForward.stops {n opos : Nat} (hin : opos + n < (retained c.parcel).length) :
    wp (searchForward dpos n opos) (fun o c' => c' = c ∧ o ≤ opos + n ∧
      (o < opos + n → ∀ x, (retained c.parcel)[o]? = some x → dpos ≤ x)) E c := by
  induction n generalizing opos with
  | zero =>
    unfold searchForward
    rw [wp_pure]
    exact ⟨rfl, le_rfl, fun hlt => absurd hlt (lt_irrefl _)⟩
  | succ n ih =>
    unfold searchForward
    rw [wp_bind, wp_loadObject_retained (by omega)]
    split
    · refine wp_imp (ih (by omega)) ?_
      rintro o c' ⟨hc, hle, hstop⟩
      exact ⟨hc, by omega, fun hlt => hstop (by omega)⟩
    · rename_i hnot
      rw [wp_pure]
      refine ⟨rfl, by omega, fun _ x hx => ?_⟩
      rw [List.getElem?_eq_getElem (by omega), Option.some_inj] at hx
      omega

/-- The search back passes only entries behind `dpos`, and stops at the start or at one that is
not. -/
theorem searchBackward.stops {opos : Nat} (hin : opos < (retained c.parcel).length) :
    wp (searchBackward dpos opos) (fun o c' => c' = c ∧ o ≤ opos ∧
      (∀ i x, o < i → i ≤ opos → (retained c.parcel)[i]? = some x → dpos < x) ∧
      (0 < o → ∀ x, (retained c.parcel)[o]? = some x → x ≤ dpos)) E c := by
  induction opos with
  | zero =>
    unfold searchBackward
    rw [wp_pure]
    exact ⟨rfl, le_rfl, fun i x hlt hle => by omega, fun hpos => absurd hpos (lt_irrefl _)⟩
  | succ opos ih =>
    unfold searchBackward
    rw [wp_bind, wp_loadObject_retained hin]
    split
    · rename_i hbehind
      refine wp_imp (ih (by omega)) ?_
      rintro o c' ⟨hc, hle, hpassed, hstop⟩
      refine ⟨hc, by omega, fun i x hlt hi hx => ?_, hstop⟩
      by_cases hlast : i = opos + 1
      · rw [hlast, List.getElem?_eq_getElem hin, Option.some_inj] at hx
        omega
      · exact hpassed i x hlt (by omega) hx
    · rename_i hnot
      rw [wp_pure]
      refine ⟨rfl, le_rfl, fun i x hlt hle => by omega, fun _ x hx => ?_⟩
      rw [List.getElem?_eq_getElem hin, Option.some_inj] at hx
      omega

theorem foundAt.listed {Q : Bool → Ctx W → Prop} {orElse : Prog (Ctx W) Fault Bool} {opos : Nat}
    (hin : opos < (retained c.parcel).length)
    (hfound : (retained c.parcel)[opos] = dpos → ∀ c', Q true c')
    (helse : (retained c.parcel)[opos] ≠ dpos → wp orElse Q E c) :
    wp (foundAt dpos opos orElse) Q E c := by
  unfold foundAt
  rw [wp_bind, wp_loadObject_retained hin]
  split
  · rename_i heq
    rw [wp_bind, wp_update, wp_pure]
    exact hfound heq _
  · rename_i hne
    exact helse hne

/-- From an entry with no `dpos` behind it, the search finds `dpos` where it is listed. -/
theorem findFrom.listed {opos : Nat} (hapart : Apart (retained c.parcel))
    (hin : opos < (retained c.parcel).length)
    (hahead : ∀ j, opos < j → (retained c.parcel)[j]? ≠ some dpos) :
    wp (findFrom dpos opos) (fun found _ => found = true ↔ dpos ∈ retained c.parcel) E c := by
  unfold findFrom
  refine foundAt.listed hin (fun heq _ => ?_) fun hne => ?_
  · simp [← heq]
  rw [wp_bind]
  refine wp_imp (searchBackward.stops hin) fun o c' ⟨hc, hle, hpassed, hstop⟩ => ?_
  rw [hc]
  have hino : o < (retained c.parcel).length := by omega
  refine foundAt.listed hino (fun heq _ => ?_) fun hne' => ?_
  · simp [← heq]
  rw [wp_pure]
  simp only [Bool.false_eq_true, false_iff]
  intro hmem
  obtain ⟨j, hj, heq⟩ := List.getElem_of_mem hmem
  have hget : (retained c.parcel)[j]? = some dpos := by rw [List.getElem?_eq_getElem hj, heq]
  -- `dpos` would stand before the entry, as none behind it says so
  have hj' : j ≤ opos := Nat.le_of_not_lt fun hlt => hahead j hlt hget
  rcases lt_trichotomy j o with hbefore | hsame | hafter
  · have hless := hapart.lt hbefore hino
    have hle := hstop (by omega) _ (List.getElem?_eq_getElem hino)
    omega
  · exact hne' (by rw [← heq]; simp only [hsame])
  · exact absurd (hpassed j dpos hafter hj' hget) (lt_irrefl _)

/-- Whatever the hint says, an offset is found exactly where it is listed. -/
theorem findObject.listed (hapart : Apart (retained c.parcel))
    (htable : c.parcel.mObjectsSize ≤ c.parcel.table.length) :
    wp (findObject dpos) (fun found _ => found = true ↔ dpos ∈ retained c.parcel) E c := by
  have hlen : (retained c.parcel).length = c.parcel.mObjectsSize := by
    unfold retained
    rw [List.length_take]
    omega
  unfold findObject
  rw [wp_bind, wp_thisParcel]
  dsimp only
  split
  · rename_i hnone
    rw [wp_pure]
    have hnil : retained c.parcel = [] := List.length_eq_zero_iff.mp (by omega)
    simp [hnil]
  · split
    · rw [wp_bind]
      refine wp_imp (searchForward.stops (by omega)) fun o c' ⟨hc, hle, hstop⟩ => ?_
      rw [hc]
      refine findFrom.listed hapart (by omega) fun j hj hget => ?_
      -- the search did not come to the end, and what follows lies behind `dpos`
      obtain ⟨hlt, heq⟩ := List.getElem?_eq_some_iff.mp hget
      have hless := hapart.lt hj hlt
      have hge := hstop (by omega) _ (List.getElem?_eq_getElem (by omega))
      omega
    · refine findFrom.listed hapart (by omega) fun j hj hget => ?_
      obtain ⟨hlt, -⟩ := List.getElem?_eq_some_iff.mp hget
      omega

/-- An object at the position is handed out where the table lists it, and where it is a null one
and those count. -/
theorem readObject.listed {nullMetaData : Bool} (hapart : Apart (retained c.parcel))
    (htable : c.parcel.mObjectsSize ≤ c.parcel.table.length)
    (hwhole : c.parcel.mDataPos + FLAT_SIZE ≤ c.parcel.mDataSize)
    (hdata : c.parcel.mDataSize ≤ c.parcel.cells.length)
    (hfits : c.parcel.mDataSize ≤ SIZE_MAX) :
    let obj := FlatBinderObject.ofBytes (window c.parcel.cells c.parcel.mDataPos FLAT_SIZE)
    wp (readObject nullMetaData) (fun r _ => r =
      if c.parcel.mDataPos ∈ retained c.parcel ∨
        (nullMetaData = false ∧ obj.cookie = 0 ∧ obj.binder = 0) then some obj else none) E c := by
  have hsz : sz (c.parcel.mDataPos + FLAT_SIZE) = c.parcel.mDataPos + FLAT_SIZE := by
    unfold SIZE_MAX at hfits
    exact Nat.mod_eq_of_lt (by omega)
  dsimp only
  unfold readObject
  rw [wp_bind, wp_thisParcel]
  dsimp only
  rw [hsz, if_pos hwhole, wp_bind, wp_loadData (by omega), wp_bind, wp_update]
  split
  · rename_i hnull
    rw [wp_pure, if_pos (.inr hnull)]
  · rename_i hnull
    rw [wp_bind]
    have hfind : wp (findObject c.parcel.mDataPos) _ E (c.mapParcel (skip FLAT_SIZE)) :=
      findObject.listed hapart htable
    refine wp_imp hfind fun found c' hfound => ?_
    have hfound' : found = true ↔ c.parcel.mDataPos ∈ retained c.parcel := hfound
    split
    · rename_i htrue
      rw [wp_pure, if_pos (.inl (hfound'.mp htrue))]
    · rename_i hfalse
      rw [wp_pure, if_neg]
      rintro (hmem | hzero)
      · exact hfalse (hfound'.mpr hmem)
      · exact hnull hzero

/-! ## What reads leave -/

/-- The same data and the same object table. -/
structure SameList (p p' : Parcel) : Prop where
  data : p'.mData = p.mData
  size : p'.mDataSize = p.mDataSize
  objects : p'.mObjects = p.mObjects
  objectsSize : p'.mObjectsSize = p.mObjectsSize

/-- Both parcels have the same data and the same object table. -/
def SameLists (c c' : Ctx W) : Prop := SameList c.parcel c'.parcel

/-- A relation that does not see where a parcel is read, nor what the allocator was asked for. -/
class ReadFrame (R : Ctx W → Ctx W → Prop) : Prop where
  frame : Frame R fun _ (_ : Fault) => True
  parcel : ∀ c f, (∀ p, SameList p (f p)) → R c (c.mapParcel f)
  heap : ∀ c f, (∀ h, (f h).fresh = h.fresh) → R c (c.mapHeap f)

instance : ReadFrame (SameLists (W := W)) where
  frame :=
    { refl := fun _ => ⟨rfl, rfl, rfl, rfl⟩
      trans := fun h h' => ⟨h'.data.trans h.data, h'.size.trans h.size,
        h'.objects.trans h.objects, h'.objectsSize.trans h.objectsSize⟩
      stops := fun _ _ => trivial }
  parcel := fun c _ h => h c.parcel
  heap := fun _ _ _ => ⟨rfl, rfl, rfl, rfl⟩

/-- The program keeps `R`, if it returns. -/
abbrev Leaves {α : Type} (R : Ctx W → Ctx W → Prop) (m : Prog (Ctx W) Fault α) : Prop :=
  Keeps R (fun _ _ => True) m

namespace Leaves

variable {α β : Type} {R : Ctx W → Ctx W → Prop} [ReadFrame R]

theorem frame : Frame R fun _ (_ : Fault) => True := ReadFrame.frame

theorem pure (a : α) : Leaves R (pure a : Prog (Ctx W) Fault α) := frame.pure a

theorem bind {m : Prog (Ctx W) Fault α} {f : α → Prog (Ctx W) Fault β} (hm : Leaves R m)
    (hf : ∀ a, Leaves R (f a)) : Leaves R (m >>= f) := frame.bind hm hf

theorem thisParcel : Leaves R (thisParcel : Prog (Ctx W) Fault Parcel) := fun c => frame.refl c

theorem update (f : Parcel → Parcel) (h : ∀ p, SameList p (f p)) :
    Leaves R (update f : Prog (Ctx W) Fault Unit) := fun c => ReadFrame.parcel c f h

omit [ReadFrame R] in
theorem fault (e : Fault) : Leaves R (fault e : Prog (Ctx W) Fault α) := fun _ => trivial

theorem indeterminate : Leaves R (indeterminate : Prog (Ctx W) Fault (BitVec 32)) :=
  fun c => ReadFrame.heap c _ fun _ => rfl

theorem outside (m : Prog W Fault α) : Leaves SameLists (outside m) := by
  intro c
  rw [wp_outside]
  exact wp_of_all (fun _ _ => ⟨rfl, rfl, rfl, rfl⟩) fun _ => trivial

theorem updateThread (x : Calls W) (f : ThreadState → ThreadState) :
    Leaves SameLists (updateThread x f) := fun _ => ⟨rfl, rfl, rfl, rfl⟩

theorem thisThread (x : Calls W) : Leaves R (thisThread x) := fun c => frame.refl c

theorem loadData (pos n : Nat) : Leaves R (loadData pos n : Prog (Ctx W) Fault _) := fun c =>
  wp_imp loadData.keeps fun _ c' hc => by
    rw [hc]
    exact frame.refl c

theorem loadObject (i : Nat) : Leaves R (loadObject i : Prog (Ctx W) Fault _) := fun c =>
  wp_loadObject_table fun _ _ => frame.refl c

theorem loadText (str : Nat) : Leaves R (loadText str : Prog (Ctx W) Fault _) := by
  refine Keeps.of_result (fun c text c' h => ?_) fun _ _ _ => trivial
  unfold Parcel.loadText at h
  split at h
  · cases h
  · dsimp only at h
    split at h
    · cases h
      exact frame.refl c
    · cases h

/-! ### The reads -/

theorem readAligned (pArg : List UInt8) (n : Nat) :
    Leaves R (readAligned pArg n : Prog (Ctx W) Fault _) :=
  thisParcel.bind fun _ => .ite ((loadData _ _).bind fun _ =>
    (update (skip n) fun _ => ⟨rfl, rfl, rfl, rfl⟩).bind fun _ => pure _) (pure _)

theorem readInplace (len : Nat) : Leaves R (readInplace len : Prog (Ctx W) Fault _) :=
  .ite (pure _) (thisParcel.bind fun _ => .ite
    ((update (skip _) fun _ => ⟨rfl, rfl, rfl, rfl⟩).bind fun _ => pure _) (pure _))

theorem readInt32 (pArg : BitVec 32) : Leaves R (readInt32 pArg : Prog (Ctx W) Fault _) :=
  (readAligned _ _).bind fun _ => pure _

theorem readPointer : Leaves R (readPointer : Prog (Ctx W) Fault _) :=
  (readAligned _ _).bind fun _ => .ite (pure _) (pure _)

theorem readBool : Leaves R (readBool : Prog (Ctx W) Fault _) :=
  (readInt32 _).bind fun _ => pure _

theorem read (outData : List UInt8) (len : Nat) :
    Leaves R (read outData len : Prog (Ctx W) Fault _) :=
  .ite (pure _) (thisParcel.bind fun _ => .ite ((loadData _ _).bind fun _ =>
    (update (skip _) fun _ => ⟨rfl, rfl, rfl, rfl⟩).bind fun _ => pure _) (pure _))

theorem readString8Inplace : Leaves R (readString8Inplace : Prog (Ctx W) Fault _) := by
  refine indeterminate.bind fun size => (readInt32 size).bind fun _ => .ite ?_ (pure _)
  refine (readInplace _).bind fun str => ?_
  cases str with
  | none => exact pure _
  | some str => exact (loadData _ _).bind fun _ => .ite (pure _) (fault _)

theorem readString16 : Leaves R (readString16 : Prog (Ctx W) Fault _) :=
  readString8Inplace.bind fun _ => pure _

theorem readString16_to (pArg : BinderString) :
    Leaves R (readString16_to pArg : Prog (Ctx W) Fault _) := by
  refine readString16.bind fun str => ?_
  cases str with
  | none => exact pure _
  | some str => exact (loadText _).bind fun _ => pure _

theorem readWord : Leaves R (readWord : Prog (Ctx W) Fault _) :=
  indeterminate.bind fun _ => (readInt32 _).bind fun _ => pure _

theorem sameInterface (interface : BinderString) (len : Nat) :
    Leaves R (sameInterface interface len : Prog (Ctx W) Fault _) := by
  refine readString8Inplace.bind fun read => .ite (pure _) (.ite (pure _) ?_)
  obtain ⟨str, _⟩ := read
  cases str with
  | none => exact fault _
  | some str =>
    refine (loadData _ _).bind fun _ => bind ?_ fun _ => pure _
    exact .ite (pure _) (fault _)

theorem checkInterface {x : Calls W} {binder : BitVec 64}
    (hdescriptor : Leaves R (system_binder.outside (x.getInterfaceDescriptor binder)))
    (hthread : ∀ f, Leaves R (Parcel.updateThread x f)) : Leaves R (checkInterface x binder) := by
  refine hdescriptor.bind fun descriptor => readWord.bind fun _ => ?_
  refine bind ((thisThread x).bind fun _ => .ite (hthread _) (hthread _)) fun _ => ?_
  refine bind (thisParcel.bind fun _ =>
    .ite (update _ fun _ => ⟨rfl, rfl, rfl, rfl⟩) (pure _)) fun _ => ?_
  refine readWord.bind fun _ => bind (hthread _) fun _ => readWord.bind fun _ => ?_
  exact .ite (pure _) (sameInterface _ _)

/-! ### Status and objects -/

theorem setDataPosition (pos : Nat) : Leaves R (setDataPosition pos : Prog (Ctx W) Fault _) :=
  .ite (fault _) (update _ fun _ => ⟨rfl, rfl, rfl, rfl⟩)

theorem dataAvail : Leaves R (dataAvail : Prog (Ctx W) Fault _) :=
  (thisParcel.bind fun _ => pure _).bind fun _ => (thisParcel.bind fun _ => pure _).bind fun _ =>
    .ite (fault _) (pure _)

theorem indeterminateString : Leaves R (Status.indeterminateString : Prog (Ctx W) Fault _) :=
  fun c => ReadFrame.heap c _ fun _ => rfl

theorem dup (s that : BinderString) : Leaves R (s.dup that : Prog (Ctx W) Fault _) := by
  unfold BinderString.dup
  split
  · exact pure _
  · exact fault _

theorem skipBlock (always : Bool) (st : Status) {next : Prog (Ctx W) Fault (Int × Status)}
    (h : Leaves R next) : Leaves R (Status.skipBlock always st next) := by
  refine (thisParcel.bind fun _ => pure _).bind fun start => bind ?_ fun _ => .ite (pure _) ?_
  · exact dataAvail.bind fun _ => indeterminate.bind fun _ => (readInt32 _).bind fun _ =>
      .ite (pure _) (.ite (pure _) (pure _))
  · exact bind (.ite (setDataPosition _) (pure _)) fun _ => h

theorem readDetails (st : Status) : Leaves R (Status.readDetails st : Prog (Ctx W) Fault _) :=
  .ite ((readInt32 _).bind fun _ => .ite (pure _) (pure _))
    (.ite (skipBlock _ _ (pure _)) (pure _))

theorem readFromParcel (st : Status) :
    Leaves R (Status.readFromParcel st : Prog (Ctx W) Fault _) := by
  refine (readInt32 _).bind fun _ => .ite (pure _) (.ite (skipBlock _ _ (pure _))
    (.ite (pure _) ?_))
  exact indeterminateString.bind fun _ => (readString16_to _).bind fun _ => .ite (pure _)
    ((dup _ _).bind fun _ => skipBlock _ _ (readDetails _))

theorem searchForward (dpos n opos : Nat) :
    Leaves R (searchForward dpos n opos : Prog (Ctx W) Fault _) := by
  induction n generalizing opos with
  | zero => exact pure _
  | succ n ih => exact (loadObject _).bind fun _ => .ite (ih _) (pure _)

theorem searchBackward (dpos opos : Nat) :
    Leaves R (searchBackward dpos opos : Prog (Ctx W) Fault _) := by
  induction opos with
  | zero => exact pure _
  | succ opos ih => exact (loadObject _).bind fun _ => .ite ih (pure _)

theorem foundAt (dpos opos : Nat) {orElse : Prog (Ctx W) Fault Bool} (h : Leaves R orElse) :
    Leaves R (foundAt dpos opos orElse) :=
  (loadObject _).bind fun _ => .ite (bind (update _ fun _ => ⟨rfl, rfl, rfl, rfl⟩) fun _ =>
    pure _) h

theorem findFrom (dpos opos : Nat) : Leaves R (findFrom dpos opos : Prog (Ctx W) Fault _) :=
  foundAt _ _ ((searchBackward _ _).bind fun _ => foundAt _ _ (pure _))

theorem readObject (nullMetaData : Bool) :
    Leaves R (readObject nullMetaData : Prog (Ctx W) Fault _) := by
  refine thisParcel.bind fun _ => .ite ((loadData _ _).bind fun _ =>
    (update (skip _) fun _ => ⟨rfl, rfl, rfl, rfl⟩).bind fun _ => .ite (pure _) ?_) (pure _)
  refine bind (thisParcel.bind fun _ => .ite (pure _) (.ite ?_ (findFrom _ _))) fun _ =>
    .ite (pure _) (pure _)
  exact (searchForward _ _ _).bind fun _ => findFrom _ _

theorem readFileDescriptor : Leaves R (readFileDescriptor : Prog (Ctx W) Fault _) := by
  refine (readObject _).bind fun flat => ?_
  cases flat with
  | none => exact pure _
  | some flat => exact .ite (pure _) (pure _)

/-- What a binder that is read makes others do keeps `R`. -/
structure OfCalls (R : Ctx W → Ctx W → Prop) (x : Calls W) : Prop where
  incStrongRequireStrong : ∀ a, Leaves R (system_binder.outside (x.incStrongRequireStrong a))
  getStrongProxyForHandle : ∀ h, Leaves R (system_binder.outside (x.getStrongProxyForHandle h))
  setRepr : ∀ a s, Leaves R (system_binder.outside (Stability.setRepr x a s false))

theorem ofCalls (x : Calls W) : OfCalls SameLists x :=
  ⟨fun _ => outside _, fun _ => outside _, fun _ _ => outside _⟩

variable {x : Calls W}

theorem finishUnflattenBinder (h : OfCalls R x) (binder : BitVec 64) :
    Leaves R (finishUnflattenBinder x binder) :=
  indeterminate.bind fun _ => (readInt32 _).bind fun _ => .ite (pure _)
    (bind (h.setRepr _ _) fun _ => .ite (pure _) (pure _))

theorem readNullableStrongBinder (h : OfCalls R x) : Leaves R (readNullableStrongBinder x) := by
  refine (readObject _).bind fun flat => ?_
  cases flat with
  | none => exact pure _
  | some flat =>
    exact .ite (bind (h.incStrongRequireStrong _) fun _ => finishUnflattenBinder h _)
      (.ite (bind (h.getStrongProxyForHandle _) fun _ => finishUnflattenBinder h _) (pure _))

theorem readStrongBinder (h : OfCalls R x) : Leaves R (readStrongBinder x) :=
  (readNullableStrongBinder h).bind fun _ => .ite (pure _) (pure _)

end Leaves

/-- A read of data, of a `Status` or of an object, or a new position. -/
inductive ObjectRead
  | peer (o : PeerRead)
  | inplace (len : Nat)
  | object (nullMetaData : Bool)
  | fileDescriptor
  | strongBinder
  | nullableStrongBinder
  | position (pos : Nat)

/-- The read, without what it returns. -/
def runObjectRead (x : Calls W) : ObjectRead → Prog (Ctx W) Fault Unit
  | .peer o => runPeer x o
  | .inplace len => do let _ ← readInplace len
  | .object nullMetaData => do let _ ← readObject nullMetaData
  | .fileDescriptor => do let _ ← readFileDescriptor
  | .strongBinder => do let _ ← readStrongBinder x
  | .nullableStrongBinder => do let _ ← readNullableStrongBinder x
  | .position pos => setDataPosition pos

theorem runObjectRead.leaves (x : Calls W) (o : ObjectRead) :
    Leaves SameLists (runObjectRead x o) := by
  cases o with
  | peer o =>
    cases o with
    | status st => exact (Leaves.readFromParcel st).bind fun _ => .pure _
    | data o =>
      cases o with
      | int32 pArg => exact (Leaves.readInt32 pArg).bind fun _ => .pure _
      | bool => exact Leaves.readBool.bind fun _ => .pure _
      | pointer => exact Leaves.readPointer.bind fun _ => .pure _
      | bytes outData len => exact (Leaves.read outData len).bind fun _ => .pure _
      | string16 => exact Leaves.readString16.bind fun _ => .pure _
      | string16To pArg => exact (Leaves.readString16_to pArg).bind fun _ => .pure _
      | interface binder => exact (Leaves.checkInterface (.outside _) (Leaves.updateThread x)).bind fun _ => .pure _
  | inplace len => exact (Leaves.readInplace len).bind fun _ => .pure _
  | object nullMetaData => exact (Leaves.readObject nullMetaData).bind fun _ => .pure _
  | fileDescriptor => exact Leaves.readFileDescriptor.bind fun _ => .pure _
  | strongBinder => exact (Leaves.readStrongBinder (Leaves.ofCalls x)).bind fun _ => .pure _
  | nullableStrongBinder => exact (Leaves.readNullableStrongBinder (Leaves.ofCalls x)).bind fun _ => .pure _
  | position pos => exact Leaves.setDataPosition pos

/-! ## The law -/

/-- A parcel over a buffer that was delivered: the data, and the part of the offsets that it
retains, whole objects one behind the other. -/
structure Listed (buffer : Block UInt8) (size : Nat) (offsets : List Nat) (p : Parcel) : Prop where
  data : p.mData = some buffer
  dataSize : p.mDataSize = size
  table : p.mObjectsSize ≤ p.table.length
  retained : retained p = offsets

theorem Listed.same {buffer : Block UInt8} {size : Nat} {offsets : List Nat} {p p' : Parcel}
    (h : Listed buffer size offsets p) (k : SameList p p') : Listed buffer size offsets p' where
  data := k.data.trans h.data
  dataSize := k.size.trans h.dataSize
  table := by
    rw [k.objectsSize, Parcel.table, k.objects]
    exact h.table
  retained := by
    rw [Parcel.retained, k.objectsSize, Parcel.table, k.objects]
    exact h.retained

/-- Offsets that pass lie apart, and their objects have supported types. -/
theorem apart_of_pass {cells : List UInt8} {offsets : List Nat} {m size : Nat}
    (hsize : size ≤ SIZE_MAX) (hin : ∀ o ∈ offsets, o + FLAT_SIZE ≤ size)
    (h : offsetsPass cells offsets m = true) :
    (∀ o ∈ offsets, m ≤ o) ∧ Apart offsets ∧
      ∀ o ∈ offsets, supported (bytesWord 32 (window cells o 4)) = true := by
  induction offsets generalizing m with
  | nil => simp [Apart]
  | cons o offsets ih =>
    simp only [offsetsPass, Bool.and_eq_true, decide_eq_true_eq] at h
    obtain ⟨⟨hle, htype⟩, hrest⟩ := h
    have hsz : sz (o + FLAT_SIZE) = o + FLAT_SIZE := by
      have hwhole := hin o List.mem_cons_self
      unfold SIZE_MAX at hsize
      exact Nat.mod_eq_of_lt (by omega)
    rw [hsz] at hrest
    obtain ⟨hafter, hapart, htypes⟩ := ih (fun o' ho' => hin o' (List.mem_cons_of_mem _ ho')) hrest
    refine ⟨fun o' ho' => ?_, List.pairwise_cons.mpr ⟨hafter, hapart⟩, fun o' ho' => ?_⟩
    · rcases List.mem_cons.mp ho' with rfl | ho'
      · exact hle
      · have hbehind := hafter o' ho'
        omega
    · rcases List.mem_cons.mp ho' with rfl | ho'
      · exact htype
      · exact htypes o' ho'

/-- The offsets in a range of the table, each with a whole object in the data. -/
def WholeObjects (p : Parcel) (i n : Nat) : Prop :=
  ∀ j, i ≤ j → j < i + n → ∃ o, p.table[j]? = some o ∧ o + FLAT_SIZE ≤ p.cells.length

theorem WholeObjects.tail {p : Parcel} {i n : Nat} (h : WholeObjects p i (n + 1)) :
    WholeObjects p (i + 1) n := fun j hle hlt => h j (by omega) (by omega)

/-- With whole objects the loop over them comes to its end. -/
theorem checkObjects.returns {n i m : Nat} (h : WholeObjects c.parcel i n) :
    wp (checkObjects n i m) (fun _ c' => c' =
      if offsetsPass c.parcel.cells ((c.parcel.table.drop i).take n) m = true then c
      else c.mapParcel withoutObjects) E c := by
  induction n generalizing i m with
  | zero =>
    unfold checkObjects
    rw [wp_pure, List.take_zero]
    rfl
  | succ n ih =>
    obtain ⟨offset, hoffset, hwhole⟩ := h i le_rfl (by omega)
    have hdrop : c.parcel.table.drop i = offset :: c.parcel.table.drop (i + 1) := by
      obtain ⟨hlt, hget⟩ := List.getElem?_eq_some_iff.mp hoffset
      rw [List.drop_eq_getElem_cons hlt, hget]
    have htype : offset + 4 ≤ c.parcel.cells.length := by
      unfold FLAT_SIZE at hwhole
      omega
    unfold checkObjects
    rw [wp_bind, wp_loadObject hoffset, hdrop, List.take_succ_cons]
    unfold offsetsPass
    split
    · rename_i hbefore
      rw [wp_update, if_neg (by simp; omega)]
    · rename_i hafter
      rw [wp_bind, wp_loadData htype]
      split
      · rename_i hsupported
        refine wp_imp (ih h.tail) fun _ c' hc' => ?_
        rw [hc', hsupported, decide_eq_true (by omega), Bool.true_and, Bool.true_and]
      · rename_i hother
        rw [wp_update, if_neg (by simp [hother])]

theorem scanFrom.returns {offset len n i : Nat} (h : WholeObjects c.parcel i n) :
    wp (scanFrom offset len n i) (fun _ c' => c' = c) E c := by
  induction n generalizing i with
  | zero => exact rfl
  | succ n ih =>
    obtain ⟨pos, hpos, hwhole⟩ := h i le_rfl (by omega)
    have htype : pos + 4 ≤ c.parcel.cells.length := by
      unfold FLAT_SIZE at hwhole
      omega
    unfold scanFrom
    rw [wp_bind, wp_loadObject hpos]
    split
    · exact ih h.tail
    · split
      · rw [wp_bind, wp_thisParcel]
        split
        · exact rfl
        · exact ih h.tail
      · rw [wp_bind, wp_loadData htype]
        split
        · exact rfl
        · exact ih h.tail

theorem scanForFds.returns (h : WholeObjects c.parcel 0 c.parcel.mObjectsSize) :
    wp scanForFds (fun _ c' => ∃ fds, c' =
      c.mapParcel fun p => { p with mHasFds := fds, mFdsKnown := true }) E c := by
  unfold scanForFds hasFileDescriptorsInRange dataSize
  simp only [wp_bind, wp_thisParcel, wp_pure]
  split
  · exact ⟨_, rfl⟩
  · split
    · exact ⟨_, rfl⟩
    · rw [wp_bind]
      refine wp_imp (scanFrom.returns h) fun fds c' hc' => ?_
      rw [hc']
      exact ⟨_, rfl⟩

/-- Taking a buffer returns where giving up the old data does. It retains all objects or none. -/
theorem ipcSetDataReference.listed {x : Outside W} {buffer : Block UInt8} {offsets : Block Nat}
    {size count : Nat} {relFunc : ReleaseFunc} {c₀ c₁ : Ctx W}
    (hfree : freeData x c₀ = .ok ((), c₁)) (hsize : size ≤ buffer.cells.length)
    (hcount : count ≤ offsets.cells.length)
    (hin : ∀ o ∈ offsets.cells.take count, o + FLAT_SIZE ≤ size) :
    wp (ipcSetDataReference x buffer size offsets count relFunc) (fun _ c' =>
      Listed buffer size
        (if offsetsPass buffer.cells (offsets.cells.take count) 0 = true
          then offsets.cells.take count else []) c'.parcel) E c₀ := by
  unfold ipcSetDataReference
  rw [wp_bind, wp_of_ok hfree, wp_bind, wp_update, wp_bind]
  have hwhole : WholeObjects (refer buffer size offsets count relFunc c₁.parcel) 0 count := by
    intro j _ hj
    have hlt : j < offsets.cells.length := by omega
    refine ⟨offsets.cells[j], List.getElem?_eq_getElem hlt, ?_⟩
    have hmem : offsets.cells[j] ∈ offsets.cells.take count := by
      rw [List.mem_take_iff_getElem]
      exact ⟨j, by omega, rfl⟩
    have hle := hin _ hmem
    show _ ≤ buffer.cells.length
    omega
  refine wp_imp (checkObjects.returns hwhole) fun _ c₂ hc₂ => ?_
  have hcells : (c₁.mapParcel (refer buffer size offsets count relFunc)).parcel.cells =
      buffer.cells := rfl
  have htable : (c₁.mapParcel (refer buffer size offsets count relFunc)).parcel.table =
      offsets.cells := rfl
  rw [hcells, htable, List.drop_zero] at hc₂
  split at hc₂
  · rename_i hpass
    rw [hc₂, if_pos hpass]
    refine wp_imp (scanForFds.returns hwhole) fun _ c₃ ⟨fds, hc₃⟩ => ?_
    rw [hc₃]
    exact ⟨rfl, rfl, hcount, rfl⟩
  · rename_i hfail
    rw [hc₂, if_neg hfail]
    have hnone : WholeObjects (withoutObjects (refer buffer size offsets count relFunc c₁.parcel))
        0 0 := fun j _ hj => by omega
    refine wp_imp (scanForFds.returns hnone) fun _ c₃ ⟨fds, hc₃⟩ => ?_
    rw [hc₃]
    exact ⟨rfl, rfl, Nat.zero_le _, rfl⟩

/-- The retained offsets: all of them, whole objects of supported types one behind the other, or
none. -/
structure Retains (buffer : Block UInt8) (offsets retained : List Nat) : Prop where
  all : retained = offsets ∨ retained = []
  apart : Apart retained
  types : ∀ o ∈ retained, supported (bytesWord 32 (window buffer.cells o 4)) = true

/-- Which objects a read at the position gives, whatever the hint says. -/
def ReadsListed (c : Ctx W) : Prop :=
  ∀ (hint : Nat) (nullMetaData : Bool),
    c.parcel.mDataPos + FLAT_SIZE ≤ c.parcel.mDataSize →
    let obj := FlatBinderObject.ofBytes (window c.parcel.cells c.parcel.mDataPos FLAT_SIZE)
    ∃ c', readObject nullMetaData (c.mapParcel fun p => { p with mNextObjectHint := hint }) =
      .ok (if c.parcel.mDataPos ∈ retained c.parcel ∨
        (nullMetaData = false ∧ obj.cookie = 0 ∧ obj.binder = 0) then some obj else none, c')

theorem Listed.reads {buffer : Block UInt8} {offsets : List Nat} {size : Nat}
    (h : Listed buffer size offsets c.parcel) (hapart : Apart offsets)
    (hsize : size ≤ buffer.cells.length) (hfits : size ≤ SIZE_MAX) : ReadsListed c := by
  intro hint nullMetaData hwhole
  have hcells : c.parcel.cells = buffer.cells := by
    unfold Parcel.cells
    rw [h.data]
    rfl
  have hread : wp (readObject nullMetaData) _ never
      (c.mapParcel fun p => { p with mNextObjectHint := hint }) :=
    readObject.listed (h.retained ▸ hapart) h.table hwhole
      (by show c.parcel.mDataSize ≤ c.parcel.cells.length; rw [h.dataSize, hcells]; exact hsize)
      (by show c.parcel.mDataSize ≤ SIZE_MAX; rw [h.dataSize]; exact hfits)
  obtain ⟨r, c', hok, hr⟩ := wp_never_iff.mp hread
  exact ⟨c', hr ▸ hok⟩

/-- A parcel over a delivered buffer retains all objects or none, and through any reads and new
positions it hands out exactly those it retains, and null objects to those who take them. -/
theorem only_listed_objects_are_handed_out (x : Calls W) (buffer : Block UInt8)
    (offsets : Block Nat) (size count : Nat) (relFunc : ReleaseFunc) {c₀ c₁ : Ctx W}
    (hfree : freeData x.toOutside c₀ = .ok ((), c₁)) (hsize : size ≤ buffer.cells.length)
    (hfits : size ≤ SIZE_MAX) (hcount : count ≤ offsets.cells.length)
    (hin : ∀ o ∈ offsets.cells.take count, o + FLAT_SIZE ≤ size) :
    ∃ c₂, ipcSetDataReference x.toOutside buffer size offsets count relFunc c₀ = .ok ((), c₂) ∧
      Retains buffer (offsets.cells.take count) (retained c₂.parcel) ∧ ReadsListed c₂ ∧
      ∀ reads, Always (runObjectRead x) (fun _ _ result =>
        ∀ c', result = .ok ((), c') → ReadsListed c' ∧ retained c'.parcel = retained c₂.parcel)
        reads c₂ := by
  have htakes : wp (ipcSetDataReference x.toOutside buffer size offsets count relFunc) _ never c₀ :=
    ipcSetDataReference.listed hfree hsize hcount hin
  obtain ⟨_, c₂, hok, hlisted⟩ := wp_never_iff.mp htakes
  have hretains : Retains buffer (offsets.cells.take count) (retained c₂.parcel) := by
    rw [hlisted.retained]
    split
    · rename_i hpass
      obtain ⟨-, hapart, htypes⟩ := apart_of_pass hfits hin hpass
      exact ⟨.inl rfl, hapart, htypes⟩
    · exact ⟨.inr rfl, List.Pairwise.nil, fun o ho => by cases ho⟩
  have hreads : ∀ c : Ctx W, Listed buffer size (retained c₂.parcel) c.parcel → ReadsListed c :=
    fun c h => h.reads hretains.apart hsize hfits
  have hlisted₂ : Listed buffer size (retained c₂.parcel) c₂.parcel :=
    ⟨hlisted.data, hlisted.dataSize, hlisted.table, rfl⟩
  refine ⟨c₂, hok, hretains, hreads c₂ hlisted₂, fun reads => ?_⟩
  refine always_of_inv (fun c : Ctx W => Listed buffer size (retained c₂.parcel) c.parcel)
    ?_ ?_ hlisted₂ allowed_all
  · intro o c h _ c' hc'
    have hsame := (runObjectRead.leaves x o c).of_ok hc'
    exact ⟨hreads c' (h.same hsame), (h.same hsame).retained⟩
  · intro o c u c' h _ hc'
    exact h.same ((runObjectRead.leaves x o c).of_ok hc')

/-- A word, and a handle behind it. -/
def wordAndHandle : Block UInt8 where
  address := 0
  cells := wordBytes 4 (7 : BitVec 32) ++
    FlatBinderObject.toBytes { type := BINDER_TYPE_HANDLE, flags := 0, binder := 5, cookie := 0 }

theorem a_listed_handle_is_handed_out :
    ∃ c₂, ipcSetDataReference quiet.toOutside wordAndHandle 28 ⟨1, [4]⟩ 1 .freeBuffer
        ⟨empty, plenty, ()⟩ = .ok ((), c₂) ∧ ReadsListed c₂ ∧ retained c₂.parcel = [4] := by
  have hfree : freeData quiet.toOutside (⟨empty, plenty, ()⟩ : Ctx Unit) =
      .ok ((), ⟨empty, _, ()⟩) := rfl
  obtain ⟨c₂, hok, -, hreads, -⟩ := only_listed_objects_are_handed_out quiet wordAndHandle
    ⟨1, [4]⟩ 28 1 .freeBuffer hfree (by decide) (by decide) (by decide) (by decide)
  have hretained : (ipcSetDataReference quiet.toOutside wordAndHandle 28 ⟨1, [4]⟩ 1 .freeBuffer
      ⟨empty, plenty, ()⟩).toOption.map (fun r => retained r.2.parcel) = some [4] := by
    decide +kernel
  rw [hok] at hretained
  exact ⟨c₂, hok, hreads, Option.some_inj.mp hretained⟩

end system_binder.Parcel
