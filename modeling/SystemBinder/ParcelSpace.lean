-- The space law of the Parcel: whatever is written, read and resized in a parcel
-- of one's own, and whatever memory there is, no store leaves the buffer.
import SystemBinder.ParcelMoves
import SystemBinder.ParcelObjects
import SystemBinder.ParcelRoundTrip

open prog memory

namespace system_binder.Parcel

variable {W α : Type} {x : Calls W} {c : Ctx W} {E : Fault → Prop}

/-! ## Reads of objects -/

theorem Local.moved {p p' : Parcel} (l : Local p) (m : Moved p p') : Local p' where
  owner := m.owner.trans l.owner
  pos := m.pos
  size := by
    rw [m.size, m.capacity]
    exact l.size
  capacity := by
    rw [m.capacity]
    exact l.capacity
  data := by
    rw [m.cells, m.capacity]
    exact l.data
  objects := by
    rw [m.objectsSize, m.objectsCapacity]
    exact l.objects
  table := by
    rw [m.table, m.objectsCapacity]
    exact l.table
  offsets := by
    rw [m.table, m.objectsSize, m.capacity]
    exact l.offsets

theorem Local.table_get {p : Parcel} (l : Local p) {i : Nat} (hi : i < p.mObjectsSize) :
    ∃ o, p.table[i]? = some o := by
  obtain ⟨o, ho, _⟩ := l.listed_object hi
  exact ⟨o, ho⟩

/-- The search ahead stays inside the table. -/
theorem searchForward.spec {Q : Nat → Ctx W → Prop} {dpos n opos : Nat} (l : Local c.parcel)
    (hn : opos + n < c.parcel.mObjectsSize)
    (hQ : ∀ i, i < c.parcel.mObjectsSize → Q i c) :
    wp (searchForward dpos n opos) Q E c := by
  induction n generalizing opos with
  | zero => exact hQ opos hn
  | succ n ih =>
    obtain ⟨o, ho⟩ := l.table_get (i := opos) (by omega)
    unfold searchForward
    simp only [wp_bind, wp_loadObject ho, wp_ite, wp_pure]
    exact ⟨fun _ => ih (by omega), fun _ => hQ opos (by omega)⟩

/-- The search back stays inside the table. -/
theorem searchBackward.spec {Q : Nat → Ctx W → Prop} {dpos opos : Nat} (l : Local c.parcel)
    (ho : opos < c.parcel.mObjectsSize) (hQ : ∀ i, i < c.parcel.mObjectsSize → Q i c) :
    wp (searchBackward dpos opos) Q E c := by
  induction opos with
  | zero => exact hQ 0 ho
  | succ opos ih =>
    obtain ⟨o, hget⟩ := l.table_get ho
    unfold searchBackward
    simp only [wp_bind, wp_loadObject hget, wp_ite, wp_pure]
    exact ⟨fun _ => ih (by omega), fun _ => hQ _ ho⟩

theorem foundAt.spec {dpos i : Nat} {orElse : Prog (Ctx W) Fault Bool} (l : Local c.parcel)
    (hi : i < c.parcel.mObjectsSize)
    (h : wp orElse (fun _ c' => Moved c.parcel c'.parcel) E c) :
    wp (foundAt dpos i orElse) (fun _ c' => Moved c.parcel c'.parcel) E c := by
  obtain ⟨o, ho⟩ := l.table_get hi
  unfold foundAt
  simp only [wp_bind, wp_loadObject ho, wp_ite, wp_update, wp_pure]
  exact ⟨fun _ => ⟨rfl, rfl, rfl, rfl, rfl, rfl, rfl, l.pos⟩, fun _ => h⟩

theorem findFrom.spec {dpos i : Nat} (l : Local c.parcel) (hi : i < c.parcel.mObjectsSize) :
    wp (findFrom dpos i) (fun _ c' => Moved c.parcel c'.parcel) E c := by
  refine foundAt.spec l hi ?_
  rw [wp_bind]
  exact searchBackward.spec l hi fun j hj => foundAt.spec l hj (Moved.refl l.pos)

theorem findObject.spec {dpos : Nat} (l : Local c.parcel) :
    wp (findObject dpos) (fun _ c' => Moved c.parcel c'.parcel) E c := by
  unfold findObject
  simp only [wp_bind, wp_thisParcel, wp_ite, wp_pure]
  refine ⟨fun _ => Moved.refl l.pos, fun h0 => ⟨fun hlt => ?_, fun _ => findFrom.spec l (by omega)⟩⟩
  exact searchForward.spec l (by omega) fun i hi => findFrom.spec l hi

/-- An object read moves over the object, listed or not. -/
theorem readObject.spec_moved {nullMetaData : Bool} (l : Local c.parcel) :
    wp (readObject nullMetaData) (fun _ c' => Moved c.parcel c'.parcel) E c := by
  have r := l.readable
  unfold readObject
  simp only [wp_bind, wp_thisParcel, r.sz_pos (n := FLAT_SIZE) (by decide)]
  rw [wp_ite]
  refine ⟨fun hin => ?_, fun _ => Moved.refl l.pos⟩
  have hm := r.moved_skip (n := FLAT_SIZE) (by decide) hin
  rw [wp_bind, wp_loadData (Nat.le_trans hin r.data)]
  simp only [wp_bind, wp_update, wp_ite, wp_pure]
  refine ⟨fun _ => hm, fun _ => wp_imp (findObject.spec (l.moved hm)) ?_⟩
  intro found c' h
  exact ⟨fun _ => hm.trans h, fun _ => hm.trans h⟩

theorem readFileDescriptor.spec_moved (l : Local c.parcel) :
    wp readFileDescriptor (fun _ c' => Moved c.parcel c'.parcel) E c := by
  unfold readFileDescriptor
  rw [wp_bind]
  refine wp_imp (readObject.spec_moved l) ?_
  rintro (_ | flat) c' h
  · exact h
  · rw [wp_ite]
    exact ⟨fun _ => h, fun _ => h⟩

theorem finishUnflattenBinder.moves (hc : ∀ e, E (.inCall e)) (binder : BitVec 64) :
    Moves E (finishUnflattenBinder x binder) :=
  Moves.indeterminate.bind fun old => (readInt32.moves old).bind fun ⟨_, _⟩ =>
    (Moves.pure _).ite ((Moves.outside hc _).bind fun _ => (Moves.pure _).ite (Moves.pure _))

theorem unflattenBinder.spec_moved (l : Local c.parcel) (hc : ∀ e, E (.inCall e)) :
    wp (unflattenBinder x) (fun _ c' => Moved c.parcel c'.parcel) E c := by
  unfold unflattenBinder
  rw [wp_bind]
  refine wp_imp (readObject.spec_moved l) ?_
  rintro (_ | flat) c' h
  · exact h
  · have hrest : ∀ m : Prog (Ctx W) Fault (Int × Option (BitVec 64)), Moves E m →
        wp m (fun _ c'' => Moved c.parcel c''.parcel) E c' := fun m hm =>
      wp_imp (hm c' (h.readable l.readable)) fun _ _ h' => h.trans h'
    refine hrest _ (Moves.ite ?_ (Moves.ite ?_ (Moves.pure _)))
    · exact (Moves.outside hc _).bind fun _ => finishUnflattenBinder.moves hc _
    · exact (Moves.outside hc _).bind fun _ => finishUnflattenBinder.moves hc _

theorem readStrongBinder.spec_moved (l : Local c.parcel) (hc : ∀ e, E (.inCall e)) :
    wp (readStrongBinder x) (fun _ c' => Moved c.parcel c'.parcel) E c := by
  unfold readStrongBinder readNullableStrongBinder
  rw [wp_bind]
  refine wp_imp (unflattenBinder.spec_moved l hc) ?_
  rintro ⟨status, val⟩ c' h
  rw [wp_ite]
  exact ⟨fun _ => h, fun _ => h⟩

/-! ## Writes and sizes -/

theorem Local.withSize {p : Parcel} {n : Nat} (l : Local p) (hpos : p.mDataPos ≤ n)
    (hn : n ≤ p.mDataCapacity) : Local { p with mDataSize := n } :=
  ⟨l.owner, hpos, hn, l.capacity, l.data, l.objects, l.table, l.offsets⟩

/-- A write of a nonempty word. -/
theorem writeAligned.spec_local {bs : List UInt8} (l : Local c.parcel) (h0 : 0 < bs.length)
    (hlen : bs.length ≤ INT32_MAX) :
    wp (writeAligned x.toOutside bs) (fun _ c' => Local c'.parcel) E c :=
  writeAligned.spec l h0 hlen (fun _ a _ => a.isLocal) (fun _ _ _ k _ => k.isLocal)

theorem writeInt32.spec_local (val : BitVec 32) (l : Local c.parcel) :
    wp (writeInt32 x.toOutside val) (fun _ c' => Local c'.parcel) E c :=
  writeAligned.spec_local l (by rw [length_wordBytes]; decide) (by rw [length_wordBytes]; decide)

theorem writeString16.spec_local {str : Option BinderString} (l : Local c.parcel)
    (hstr : ∀ s, str = some s → ∃ text, s.Holds text) :
    wp (writeString16 x.toOutside str) (fun _ c' => Local c'.parcel) E c := by
  cases str with
  | none => exact writeInt32.spec_local _ l
  | some s =>
    obtain ⟨text, htext⟩ := hstr s rfl
    exact writeString16.spec htext.carries l (fun _ a _ _ => a.isLocal) (fun _ _ h _ _ _ => h)

theorem writeObject.spec_local (val : FlatBinderObject) (nullMetaData : Bool) (l : Local c.parcel)
    (hc : ∀ e, E (.inCall e)) :
    wp (writeObject x.toOutside val nullMetaData) (fun _ c' => Local c'.parcel) E c :=
  writeObject.spec l (fun _ _ _ b => b.isLocal)
    (fun _ => wp_of_all (fun _ _ _ a _ => a.isLocal) hc) (fun _ _ a _ => a.isLocal)

theorem setDataSize.spec_local (size : Nat) (l : Local c.parcel) (hc : ∀ e, E (.inCall e)) :
    wp (setDataSize x.toOutside size) (fun _ c' => Local c'.parcel) E c := by
  unfold setDataSize
  simp only [wp_ite, wp_pure, wp_bind, wp_update]
  refine ⟨fun _ => l, fun _ => continueWrite.spec l (fun r c' hne k => ?_) (fun c' k hn hs _ => ?_)
    fun hn => wp_of_all (fun _ _ c' s _ => ?_) hc⟩
  · exact ⟨fun h => absurd h hne, fun _ => k.isLocal⟩
  · refine ⟨fun _ => k.isLocal.withSize ?_ hn, fun h => absurd rfl h⟩
    rw [k.pos]
    exact Nat.le_trans l.pos hs
  · refine ⟨fun _ => s.isLocal.withSize ?_ ?_, fun h => absurd rfl h⟩
    · rw [s.pos]
      exact Nat.min_le_right _ _
    · rw [s.capacity]
      exact hn

theorem setDataCapacity.spec_local (size : Nat) (l : Local c.parcel) (hc : ∀ e, E (.inCall e)) :
    wp (setDataCapacity x.toOutside size) (fun _ c' => Local c'.parcel) E c := by
  unfold setDataCapacity
  simp only [wp_ite, wp_pure, wp_bind, wp_thisParcel]
  exact ⟨fun _ => l, fun _ => ⟨fun _ => continueWrite.spec l (fun _ _ _ k => k.isLocal)
    (fun _ k _ _ _ => k.isLocal) fun _ => wp_of_all (fun _ _ _ s _ => s.isLocal) hc, fun _ => l⟩⟩

/-! ## The law -/

/-- An operation on a parcel that its own process builds. -/
inductive Op
  | writeInt32 (val : BitVec 32)
  | writeBool (val : Bool)
  | writePointer (val : BitVec 64)
  | write (data : List UInt8)
  | writeString16 (str : Option BinderString)
  | writeObject (val : FlatBinderObject) (nullMetaData : Bool)
  | setDataSize (size : Nat)
  | setDataCapacity (size : Nat)
  | setDataPosition (pos : Nat)
  | read (r : DataRead)
  | readObject (nullMetaData : Bool)
  | readFileDescriptor
  | readNullableStrongBinder
  | readStrongBinder

/-- The operation, without what it returns. -/
def runOp (x : Calls W) : Op → Prog (Ctx W) Fault Unit
  | .writeInt32 val => do let _ ← Parcel.writeInt32 x.toOutside val
  | .writeBool val => do let _ ← Parcel.writeBool x.toOutside val
  | .writePointer val => do let _ ← Parcel.writePointer x.toOutside val
  | .write data => do let _ ← Parcel.write x.toOutside data
  | .writeString16 str => do let _ ← Parcel.writeString16 x.toOutside str
  | .writeObject val nullMetaData => do let _ ← Parcel.writeObject x.toOutside val nullMetaData
  | .setDataSize size => do let _ ← Parcel.setDataSize x.toOutside size
  | .setDataCapacity size => do let _ ← Parcel.setDataCapacity x.toOutside size
  | .setDataPosition pos => Parcel.setDataPosition pos
  | .read r => runRead x r
  | .readObject nullMetaData => do let _ ← Parcel.readObject nullMetaData
  | .readFileDescriptor => do let _ ← Parcel.readFileDescriptor
  | .readNullableStrongBinder => do let _ ← Parcel.readNullableStrongBinder x
  | .readStrongBinder => do let _ ← Parcel.readStrongBinder x

/-- Strings are well formed, and the position is set inside the data. -/
def Sensible : Op → Ctx W → Prop
  | .writeString16 str, _ => ∀ s, str = some s → ∃ text, s.Holds text
  | .setDataPosition pos, c => pos ≤ c.parcel.mDataSize
  | _, _ => True

/-- The bounds of a parcel: its blocks have the sizes it says, and its ends are in order. -/
structure Bounded (p : Parcel) : Prop where
  data : p.cells.length = p.mDataCapacity
  table : p.table.length = p.mObjectsCapacity
  pos : p.mDataPos ≤ p.mDataSize
  size : p.mDataSize ≤ p.mDataCapacity
  objects : p.mObjectsSize ≤ p.mObjectsCapacity

/-- No store left the buffer or the object table. -/
def NoWildStore (e : Fault) : Prop := e ≠ .storeOutside ∧ e ≠ .nullPointer

/-- The operation stored inside, and the bounds hold after it. -/
def StoredInside : Except Fault (Unit × Ctx W) → Prop
  | .ok (_, c) => Bounded c.parcel
  | .error e => NoWildStore e

theorem Local.bounded {p : Parcel} (l : Local p) : Bounded p :=
  ⟨l.data, l.table, l.pos, l.size, l.objects⟩

/-- One operation keeps the parcel local. -/
theorem runOp.spec {o : Op} (l : Local c.parcel) (hs : Sensible o c) :
    wp (runOp x o) (fun _ c' => Local c'.parcel) NoWildStore c := by
  have hc : ∀ e, NoWildStore (.inCall e) := fun e => ⟨nofun, nofun⟩
  have hfatal : ∀ s, NoWildStore (.logFatal s) := fun e => ⟨nofun, nofun⟩
  have hread : ∀ {α : Type} {m : Prog (Ctx W) Fault α},
      wp m (fun _ c' => Moved c.parcel c'.parcel) NoWildStore c →
      wp m (fun _ c' => Local c'.parcel) NoWildStore c := fun h =>
    wp_imp h fun _ _ hm => l.moved hm
  cases o with
  | writeInt32 val => exact (wp_bind _ _).mpr (writeInt32.spec_local val l)
  | writeBool val => exact (wp_bind _ _).mpr (writeInt32.spec_local _ l)
  | writePointer val =>
    refine (wp_bind _ _).mpr (writeAligned.spec_local l ?_ ?_) <;> rw [length_wordBytes] <;> decide
  | write data =>
    exact (wp_bind _ _).mpr (write.spec l (fun _ _ _ _ a _ => a.isLocal) fun _ _ k _ => k.isLocal)
  | writeString16 str => exact (wp_bind _ _).mpr (writeString16.spec_local l hs)
  | writeObject val nullMetaData => exact (wp_bind _ _).mpr (writeObject.spec_local _ _ l hc)
  | setDataSize size => exact (wp_bind _ _).mpr (setDataSize.spec_local size l hc)
  | setDataCapacity size => exact (wp_bind _ _).mpr (setDataCapacity.spec_local size l hc)
  | setDataPosition pos =>
    have hpos : pos ≤ c.parcel.mDataSize := hs
    have hmax : pos ≤ INT32_MAX := Nat.le_trans hpos (Nat.le_trans l.size l.capacity)
    show wp (Parcel.setDataPosition pos) _ _ c
    rw [setDataPosition.spec hmax]
    exact ⟨l.owner, hpos, l.size, l.capacity, l.data, l.objects, l.table, l.offsets⟩
  | read r => exact hread (runRead.moves x hfatal ⟨nofun, nofun⟩ hc r c l.readable)
  | readObject nullMetaData => exact (wp_bind _ _).mpr (hread (readObject.spec_moved l))
  | readFileDescriptor => exact (wp_bind _ _).mpr (hread (readFileDescriptor.spec_moved l))
  | readNullableStrongBinder => exact (wp_bind _ _).mpr (hread (unflattenBinder.spec_moved l hc))
  | readStrongBinder => exact (wp_bind _ _).mpr (hread (readStrongBinder.spec_moved l hc))

/-- From a parcel that was just initialised, through any operations and whatever memory
there is, every byte is stored inside the buffer and every offset inside the object table, and
after each operation position, size and capacity are in order. -/
theorem every_store_lies_inside (x : Calls W) (ops : List Op) (c : Ctx W)
    (h0 : c.parcel = empty) (hs : Allowed (runOp x) Sensible ops c) :
    Always (runOp x) (fun _ _ result => StoredInside result) ops c := by
  have hstep : ∀ o (d : Ctx W), Local d.parcel → Sensible o d →
      wp (runOp x o) (fun _ d' => Local d'.parcel) NoWildStore d := fun _ _ => runOp.spec
  refine always_of_inv (fun d => Local d.parcel) ?_ ?_ (by rw [h0]; exact empty_local) hs
  · intro o d l hd
    have h := hstep o d l hd
    unfold wp at h
    unfold StoredInside
    rcases hr : runOp x o d with e | ⟨u, d'⟩
    · rw [hr] at h
      exact h
    · rw [hr] at h
      exact Local.bounded h
  · intro o d u d' l hd hr
    exact (hstep o d l hd).of_ok hr

/-- A process without binders, whose thread serves nobody. -/
def quiet : Calls Unit where
  toOutside := silent
  thread := fun _ => ⟨none, 0, none, 0, 0, 0, 0, false⟩
  putThread := fun _ w => w
  backgroundSchedulingDisabled := pure false
  getInterfaceDescriptor := fun _ => pure hi
  localBinder := fun _ => pure 0
  remoteBinder := fun _ => pure 0
  mStability := fun _ => pure 0
  putStability := fun _ _ => pure ()
  setParceled := fun _ => pure ()
  getMinSchedulerPolicy := fun _ => pure 0
  getMinSchedulerPriority := fun _ => pure 0
  isRequestingSid := fun _ => pure false
  isInheritRt := fun _ => pure false
  getWeakRefs := fun _ => pure 0
  incStrongRequireStrong := fun _ => pure ()
  binderHandle := fun _ => pure 0

/-- A heap whose second request fails. -/
def failsOnce : Heap := { plenty with fresh := fun n => if n = 1 then none else some fun _ => 0xAA }

theorem every_store_lies_inside_where_memory_fails_once :
    Always (runOp quiet) (fun _ _ result => StoredInside result)
      [.writeString16 (some hi), .writeObject ⟨BINDER_TYPE_FD, 0, 3, 0⟩ true,
        .writeObject ⟨BINDER_TYPE_FD, 0, 3, 0⟩ true, .setDataPosition 0, .read .string16,
        .setDataSize 4] ⟨empty, failsOnce, ()⟩ := by
  refine every_store_lies_inside quiet _ _ rfl ⟨?_, fun _ _ _ => ⟨trivial, fun _ _ _ => ⟨trivial,
    fun _ _ _ => ⟨Nat.zero_le _, fun _ _ _ => ⟨trivial, fun _ _ _ => ⟨trivial, fun _ _ _ =>
      trivial⟩⟩⟩⟩⟩⟩
  intro s hs
  cases hs
  exact ⟨_, hi_holds⟩

end system_binder.Parcel
