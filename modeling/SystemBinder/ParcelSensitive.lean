-- A parcel that is marked sensitive: growing it leaves zeros in what it gives back, and so does
-- its end, but only as far as the data then goes.
import SystemBinder.ParcelFrames

open prog memory

namespace system_binder.Parcel

variable {W α : Type} {c c' : Ctx W}

/-! ## What is given back -/

/-- Every data block that was given back held only zeros, and so did every object table that went
back with its parcel. -/
structure OnlyZeros (h : Heap) : Prop where
  data : ∀ b ∈ h.freed, ∀ y ∈ b.cells, y = 0
  tables : ∀ t ∈ h.freedTables, ∀ o ∈ t.cells, o = 0

theorem onlyZeros_iff {h : Heap} : OnlyZeros h ↔
    (∀ b ∈ h.freed, ∀ y ∈ b.cells, y = 0) ∧ ∀ t ∈ h.freedTables, ∀ o ∈ t.cells, o = 0 :=
  ⟨fun hz => ⟨hz.data, hz.tables⟩, fun hz => ⟨hz.1, hz.2⟩⟩

instance (h : Heap) : Decidable (OnlyZeros h) := decidable_of_iff' _ onlyZeros_iff

theorem onlyZeros_giveBack {h : Heap} {b : Block UInt8} :
    OnlyZeros (h.giveBack b) ↔ OnlyZeros h ∧ ∀ y ∈ b.cells, y = 0 := by
  simp only [onlyZeros_iff, Heap.giveBack, List.mem_append, List.mem_singleton, or_imp,
    forall_and, forall_eq]
  tauto

theorem onlyZeros_giveBackTable {h : Heap} {t : Block Nat} :
    OnlyZeros (h.giveBackTable t) ↔ OnlyZeros h ∧ ∀ o ∈ t.cells, o = 0 := by
  simp only [onlyZeros_iff, Heap.giveBackTable, List.mem_append, List.mem_singleton, or_imp,
    forall_and, forall_eq]
  tauto

/-- Cells that are cleared up to `n` are zeros where those behind were. -/
theorem zeros_overlay {cells : List UInt8} {n : Nat} :
    (∀ y ∈ overlay cells 0 (List.replicate n 0), y = 0) ↔ ∀ y ∈ cells.drop n, y = 0 := by
  unfold overlay
  rw [List.take_zero, List.nil_append, List.length_replicate, Nat.zero_add]
  constructor
  · intro h y hy
    exact h y (List.mem_append_right _ hy)
  · intro h y hy
    rcases List.mem_append.mp hy with hz | hz
    · exact List.eq_of_mem_replicate hz
    · exact h y hz

/-! ## What writes leave of it -/

/-- The buffer is as large as it was, and nothing was given back. -/
structure Untouched (c c' : Ctx W) : Prop where
  owner : c'.parcel.mOwner = c.parcel.mOwner
  zero : c'.parcel.mDeallocZero = c.parcel.mDeallocZero
  length : c'.parcel.cells.length = c.parcel.cells.length
  capacity : c'.parcel.mDataCapacity = c.parcel.mDataCapacity
  freed : c'.heap.freed = c.heap.freed
  freedTables : c'.heap.freedTables = c.heap.freedTables

/-- A sensitive parcel with a buffer of its own, and only zeros given back so far. -/
structure Sensitive (c : Ctx W) : Prop where
  owner : c.parcel.mOwner = none
  zero : c.parcel.mDeallocZero = true
  length : c.parcel.cells.length = c.parcel.mDataCapacity
  clean : OnlyZeros c.heap

theorem OnlyZeros.congr {h h' : Heap} (hz : OnlyZeros h) (hf : h'.freed = h.freed)
    (ht : h'.freedTables = h.freedTables) : OnlyZeros h' :=
  ⟨hf ▸ hz.data, ht ▸ hz.tables⟩

theorem Sensitive.untouched (h : Sensitive c) (u : Untouched c c') : Sensitive c' where
  owner := u.owner.trans h.owner
  zero := u.zero.trans h.zero
  length := by rw [u.length, u.capacity, h.length]
  clean := h.clean.congr u.freed u.freedTables

instance : WriteFrame (Untouched (W := W)) where
  frame :=
    { refl := fun _ => ⟨rfl, rfl, rfl, rfl, rfl, rfl⟩
      trans := fun a b => ⟨b.owner.trans a.owner, b.zero.trans a.zero, b.length.trans a.length,
        b.capacity.trans a.capacity, b.freed.trans a.freed, b.freedTables.trans a.freedTables⟩
      stops := fun _ _ => trivial }
  parcel := fun _ _ h => ⟨h.owner, h.zero, h.length, h.capacity, rfl, rfl⟩
  next := fun _ => ⟨rfl, rfl, rfl, rfl, rfl, rfl⟩
  locals := fun _ _ => ⟨rfl, rfl, rfl, rfl, rfl, rfl⟩
  world := fun _ _ => ⟨rfl, rfl, rfl, rfl, rfl, rfl⟩

/-- What is done to a sensitive parcel leaves it one. -/
def StaysSensitive (c c' : Ctx W) : Prop := Sensitive c → Sensitive c'

theorem Untouched.stays (h : Untouched c c') : StaysSensitive c c' := fun hs => hs.untouched h

instance : WriteFrame (StaysSensitive (W := W)) where
  frame := ⟨fun _ => id, fun a b h => b (a h), fun _ _ => trivial⟩
  parcel := fun c f h => Untouched.stays (WriteFrame.parcel c f h)
  next := fun c => Untouched.stays (WriteFrame.next c)
  locals := fun c n => Untouched.stays (WriteFrame.locals c n)
  world := fun c w => Untouched.stays (WriteFrame.world c w)

theorem StaysSensitive.of {m : Prog (Ctx W) Fault α}
    (h : ∀ c, Sensitive c → wp m (fun _ c' => Sensitive c') (fun _ => True) c) :
    Writes StaysSensitive m := by
  intro c
  by_cases hs : Sensitive c
  · exact wp_imp (h c hs) fun _ _ h' _ => h'
  · exact wp_of_all (fun _ _ h' => absurd h' hs) fun _ => trivial

/-! ## Growing -/

section Growing

variable (x : Outside W)

/-- A buffer that grows leaves zeros in its old place. -/
theorem resizeOwn.sensitive {data : Block UInt8} {desired : Nat} (h : Sensitive c)
    (hdata : data.cells.length = c.parcel.mDataCapacity) :
    wp (resizeOwn desired data) (fun _ c' => Sensitive c') (fun _ => True) c := by
  unfold resizeOwn
  rw [wp_bind, wp_thisParcel, wp_ite]
  refine ⟨fun _ => ?_, fun _ => ?_⟩
  · rw [wp_bind, reallocZeroFree.spec hdata, h.zero, if_pos rfl]
    split
    · exact ⟨h.owner, h.zero, h.length, h.clean.congr rfl rfl⟩
    · refine ⟨h.owner, h.zero, length_resized _ _ _, ?_⟩
      refine (onlyZeros_giveBack.mpr ⟨h.clean.congr rfl rfl, zeros_overlay.mpr ?_⟩ : OnlyZeros
        (c.heap.next.giveBack _)).congr rfl rfl
      rw [← hdata, List.drop_length]
      exact fun y hy => by cases hy
  · exact ⟨h.owner, h.zero, h.length, h.clean⟩

theorem firstData.sensitive (desired : Nat) (h : Sensitive c) :
    wp (firstData desired) (fun _ c' => Sensitive c') (fun _ => True) c := by
  unfold firstData malloc
  rw [wp_bind, wp_allocate]
  rcases c.heap.fresh c.heap.requests with _ | g
  · exact ⟨h.owner, h.zero, h.length, h.clean.congr rfl rfl⟩
  · exact ⟨h.owner, h.zero, length_resized _ _ _, h.clean.congr rfl rfl⟩

theorem continueWrite.sensitive (desired : Nat) :
    Writes StaysSensitive (continueWrite x desired) := by
  refine StaysSensitive.of fun c h => ?_
  unfold continueWrite
  rw [wp_ite]
  refine ⟨fun _ => h, fun _ => ?_⟩
  rw [wp_bind, wp_thisParcel, wp_bind]
  refine wp_imp (Writes.countKept (R := Untouched) desired c) fun objectsSize c₁ u => ?_
  have howner : ¬c.parcel.mOwner.isSome = true := by
    rw [h.owner]
    exact fun hno => by cases hno
  rw [if_neg howner]
  rcases hd : c.parcel.mData with _ | data
  · exact firstData.sensitive desired (h.untouched u)
  · have hdata : data.cells.length = c.parcel.mDataCapacity := by
      rw [← h.length]
      unfold Parcel.cells
      rw [hd]
      rfl
    have hrest : ∀ c₂, Untouched c₁ c₂ →
        wp (resizeOwn desired data) (fun _ c' => Sensitive c') (fun _ => True) c₂ := by
      intro c₂ u'
      refine resizeOwn.sensitive ((h.untouched u).untouched u') ?_
      rw [hdata, u'.capacity, u.capacity]
    dsimp only
    split
    · rw [wp_bind]
      refine wp_imp (Writes.dropObjects (R := Untouched) x objectsSize c₁) ?_
      exact fun _ c₂ u' => hrest c₂ u'
    · exact hrest c₁ (Writes.frame.refl c₁)

end Growing

/-! ## The end of the parcel -/

/-- What is not cleared at the end, the buffer behind the data and the table of objects, holds only
zeros. -/
structure RestZero (p : Parcel) : Prop where
  data : ∀ y ∈ p.cells.drop p.mDataSize, y = 0
  table : ∀ o ∈ p.table, o = 0

instance (p : Parcel) : Decidable (RestZero p) :=
  decidable_of_iff ((∀ y ∈ p.cells.drop p.mDataSize, y = 0) ∧ ∀ o ∈ p.table, o = 0)
    ⟨fun h => ⟨h.1, h.2⟩, fun h => ⟨h.data, h.table⟩⟩

/-- The parcel and the allocator stay, whatever happens outside. -/
def OnlyWorld (c c' : Ctx W) : Prop := c'.parcel = c.parcel ∧ c'.heap = c.heap

theorem onlyWorld_frame : Frame (OnlyWorld (W := W)) fun _ (_ : Fault) => True where
  refl _ := ⟨rfl, rfl⟩
  trans a b := ⟨b.1.trans a.1, b.2.trans a.2⟩
  stops _ _ := trivial

theorem releaseObjects.onlyWorld (x : Outside W) :
    Keeps OnlyWorld (fun _ _ => True) (releaseObjects x) := by
  refine onlyWorld_frame.bind onlyWorld_frame.refl fun p => ?_
  generalize p.mObjectsSize = n
  induction n with
  | zero => exact onlyWorld_frame.pure _
  | succ n ih =>
    have hload : Keeps OnlyWorld (fun _ _ => True)
        (loadFlat n : Prog (Ctx W) Fault FlatBinderObject) :=
      fun c => wp_imp loadFlat.keeps fun _ _ hc => hc ▸ onlyWorld_frame.refl c
    refine onlyWorld_frame.bind hload fun obj => onlyWorld_frame.bind (fun c => ?_) fun _ => ih
    rw [wp_outside]
    exact wp_of_all (fun _ _ => ⟨rfl, rfl⟩) fun _ => trivial

/-- The buffer is cleared as far as the data goes. -/
theorem freeOwnData.clears (h : Sensitive c) :
    wp freeOwnData (fun _ c' => c'.parcel.mObjects = c.parcel.mObjects ∧
      (OnlyZeros c'.heap ↔ ∀ y ∈ c.parcel.cells.drop c.parcel.mDataSize, y = 0))
      (fun _ => True) c := by
  unfold freeOwnData
  rw [wp_bind, wp_thisParcel]
  rcases hd : c.parcel.mData with _ | b
  · have hcells : c.parcel.cells = [] := by
      unfold Parcel.cells
      rw [hd]
      rfl
    refine ⟨rfl, fun _ y hy => ?_, fun _ => h.clean⟩
    rw [hcells, List.drop_nil] at hy
    cases hy
  · have hcells : c.parcel.cells = b.cells := by
      unfold Parcel.cells
      rw [hd]
      rfl
    dsimp only
    rw [if_pos h.zero, wp_bind, wp_updateHeap, wp_bind, wp_updateHeap, wp_bind]
    by_cases hin : 0 + (List.replicate c.parcel.mDataSize (0 : UInt8)).length ≤
        c.parcel.cells.length
    · rw [wp_storeData (c := (c.mapHeap (Heap.subSize _)).mapHeap Heap.decCount) hin]
      simp only [wp_bind, wp_thisParcel, Ctx.parcel_mapParcel, Ctx.parcel_mapHeap, Parcel.stored,
        hd, Option.map_some, wp_updateHeap]
      refine ⟨trivial, ?_⟩
      rw [hcells]
      refine (onlyZeros_giveBack (h := (c.heap.subSize c.parcel.mDataCapacity).decCount)).trans ?_
      rw [zeros_overlay]
      exact and_iff_right (h.clean.congr rfl rfl)
    · have hout : ¬0 + (List.replicate c.parcel.mDataSize (0 : UInt8)).length ≤ b.cells.length :=
        hcells ▸ hin
      unfold wp storeData
      simp only [Ctx.parcel_mapHeap, hd, if_neg hout]

theorem freeData.clears (x : Outside W) (h : Sensitive c) :
    wp (freeData x) (fun _ c' => OnlyZeros c'.heap ↔ RestZero c.parcel) (fun _ => True) c := by
  unfold freeData freeDataNoInit
  simp only [wp_bind, wp_thisParcel, h.owner]
  refine wp_imp (releaseObjects.onlyWorld x c) ?_
  rintro _ c₁ ⟨hp, hh⟩
  have h₁ : Sensitive c₁ := ⟨by rw [hp, h.owner], by rw [hp, h.zero], by rw [hp, h.length],
    hh ▸ h.clean⟩
  refine wp_imp (freeOwnData.clears h₁) ?_
  rintro _ c₂ ⟨hobjects, hdata⟩
  rw [hp] at hobjects hdata
  unfold freeOwnObjects initState
  simp only [wp_bind, wp_thisParcel, wp_update, hobjects]
  rcases ht : c.parcel.mObjects with _ | t
  · have htable : c.parcel.table = [] := by
      unfold Parcel.table
      rw [ht]
      rfl
    refine hdata.trans ⟨fun hz => ⟨hz, fun o ho => ?_⟩, RestZero.data⟩
    rw [htable] at ho
    cases ho
  · have htable : c.parcel.table = t.cells := by
      unfold Parcel.table
      rw [ht]
      rfl
    refine onlyZeros_giveBackTable.trans ?_
    rw [hdata, ← htable]
    exact ⟨fun hz => ⟨hz.1, hz.2⟩, fun hz => ⟨hz.data, hz.table⟩⟩

/-! ## Whole lives -/

/-- What is done with a parcel before its end. -/
inductive SensitiveOp
  | write (w : MessageWrite)
  | setDataSize (size : Nat)
  | setDataCapacity (size : Nat)
  | setDataPosition (pos : Nat)
deriving DecidableEq

section

variable (x : Calls W)

/-- The operation, without what it returns. -/
def runSensitive : SensitiveOp → Prog (Ctx W) Fault Unit
  | .write w => do let _ ← runWrite x w
  | .setDataSize size => do let _ ← Parcel.setDataSize x.toOutside size
  | .setDataCapacity size => do let _ ← Parcel.setDataCapacity x.toOutside size
  | .setDataPosition pos => Parcel.setDataPosition pos

def runSensitives : List SensitiveOp → Prog (Ctx W) Fault Unit
  | [] => pure ()
  | o :: os => do
    runSensitive x o
    runSensitives os

theorem runSensitive.sensitive (o : SensitiveOp) :
    Writes StaysSensitive (runSensitive x o) := by
  have hgrow := continueWrite.sensitive x.toOutside
  cases o with
  | write w => exact (Writes.runWrite hgrow w).bind fun _ => Writes.pure _
  | setDataSize size => exact (Writes.setDataSize hgrow size).bind fun _ => Writes.pure _
  | setDataCapacity size => exact (Writes.setDataCapacity hgrow size).bind fun _ => Writes.pure _
  | setDataPosition pos => exact Writes.setDataPosition pos

theorem runSensitives.sensitive (ops : List SensitiveOp) :
    Writes StaysSensitive (runSensitives x ops) := by
  induction ops with
  | nil => exact Writes.pure _
  | cons o os ih => exact (runSensitive.sensitive x o).bind fun _ => ih

end

/-- A parcel that was marked sensitive leaves only zeros where it grows, through any operations;
at its end it does exactly where the buffer behind the data and the table of objects hold only
zeros then. -/
theorem a_sensitive_parcel_is_cleared_as_far_as_its_data_goes (x : Calls W)
    (ops : List SensitiveOp) (c c' c'' : Ctx W)
    (h0 : c.parcel = { empty with mDeallocZero := true }) (hfreed : c.heap.freed = [])
    (htables : c.heap.freedTables = []) (hrun : runSensitives x ops c = .ok ((), c'))
    (hfree : freeData x.toOutside c' = .ok ((), c'')) :
    OnlyZeros c'.heap ∧ (OnlyZeros c''.heap ↔ RestZero c'.parcel) := by
  have hstart : Sensitive c :=
    { owner := by
        rw [h0]
        rfl
      zero := by rw [h0]
      length := by
        rw [h0]
        rfl
      clean := ⟨by simp [hfreed], by simp [htables]⟩ }
  have hend : Sensitive c' := (runSensitives.sensitive x ops c).of_ok hrun hstart
  exact ⟨hend.clean, (freeData.clears x.toOutside hend).of_ok hfree⟩

/-- The same requests as `plenty` grants, with zeros in the memory. -/
def zeroed : Heap := { plenty with fresh := fun _ => some fun _ => 0 }

/-- A parcel that was just marked sensitive, on zeroed memory. -/
def marked : Ctx Unit := ⟨{ empty with mDeallocZero := true }, zeroed, ()⟩

/-- A secret, and data up to the end of the buffer. -/
def fills : List SensitiveOp := [.write (.blob (List.replicate 8 0x5A)), .setDataSize 128]

theorem a_buffer_filled_with_data_is_cleared :
    ∃ c' c'', runSensitives quiet fills marked = .ok ((), c') ∧
      freeData quiet.toOutside c' = .ok ((), c'') ∧ OnlyZeros c''.heap := by
  obtain ⟨u, c', hrun, hrest, hend⟩ : ∃ u c', runSensitives quiet fills marked = .ok (u, c') ∧
      RestZero c'.parcel ∧ wp (freeData quiet.toOutside) (fun _ _ => True) never c' :=
    wp_never_iff.mp (by decide +kernel)
  obtain ⟨v, c'', hfree, -⟩ := wp_never_iff.mp hend
  have h := a_sensitive_parcel_is_cleared_as_far_as_its_data_goes quiet fills marked c' c'' rfl rfl
    rfl hrun hfree
  exact ⟨c', c'', hrun, hfree, h.2.mpr hrest⟩

/-- An error is written over a longer secret, as `Status_writeOverParcel` does: the secret goes back
to the allocator behind it. -/
theorem a_secret_behind_the_data_is_given_back :
    wp (do
        runSensitives quiet [.write (.blob (List.replicate 8 0x5A)), .setDataSize 0,
          .setDataPosition 0, .write (.int32 0)]
        freeData quiet.toOutside)
      (fun _ c'' => ¬OnlyZeros c''.heap) never marked := by
  decide +kernel

end system_binder.Parcel
