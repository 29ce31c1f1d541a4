-- A parcel over a buffer that the driver delivered: which of its objects it lists, and what
-- giving up the old data of the parcel does to the rest of the process.
import SystemBinder.ParcelObjects

open prog memory

namespace system_binder.Parcel

variable {W : Type}

/-! ## Taking a buffer -/

/-- The loop of `Parcel_hasFileDescriptorsInRange` for `n` more objects. -/
def scanFrom (offset len : Nat) : Nat → Nat → Prog (Ctx W) Fault Bool
  | 0, _ => pure false
  | n + 1, i => do
    let pos ← loadObject i
    if pos < offset then scanFrom offset len n (i + 1)
    else if sz (offset + len) < sz (pos + FLAT_SIZE) then do
      let p ← thisParcel
      if p.mObjectsSorted = true then pure false else scanFrom offset len n (i + 1)
    else do
      let type ← loadData pos 4
      if bytesWord 32 type = BINDER_TYPE_FD then pure true else scanFrom offset len n (i + 1)

/-- `Parcel_hasFileDescriptorsInRange`: the status and `*result`, nothing where it is not set. -/
def hasFileDescriptorsInRange (offset len : Nat) : Prog (Ctx W) Fault (Int × Option Bool) := do
  let p ← thisParcel
  if INT32_MAX < len ∨ INT32_MAX < offset then pure (STATUS_BAD_VALUE, none)
  else if p.mDataSize < offset + len then pure (STATUS_BAD_VALUE, none)
  else do
    let result ← scanFrom offset len p.mObjectsSize 0
    pure (STATUS_OK, some result)

/-- `Parcel_scanForFds` -/
def scanForFds : Prog (Ctx W) Fault Unit := do
  let size ← dataSize
  let (_, result) ← hasFileDescriptorsInRange 0 size
  update (fun p => { p with mHasFds := result.getD p.mHasFds, mFdsKnown := true })

/-- The types that the loop of `Parcel_ipcSetDataReference` lets pass. -/
def supported (type : BitVec 32) : Bool :=
  type == BINDER_TYPE_BINDER || type == BINDER_TYPE_HANDLE || type == BINDER_TYPE_FD

/-- `this->mObjectsSize = 0` -/
def withoutObjects (p : Parcel) : Parcel := { p with mObjectsSize := 0 }

/-- The loop of `Parcel_ipcSetDataReference` for `n` more objects. -/
def checkObjects : Nat → Nat → Nat → Prog (Ctx W) Fault Unit
  | 0, _, _ => pure ()
  | n + 1, i, minOffset => do
    let offset ← loadObject i
    if offset < minOffset then update withoutObjects
    else do
      let type ← loadData offset 4
      if supported (bytesWord 32 type) = true then
        checkObjects n (i + 1) (sz (offset + FLAT_SIZE))
      else update withoutObjects

/-- The parcel over the buffer, before its objects are looked at. -/
def refer (data : Block UInt8) (size : Nat) (objects : Block Nat) (count : Nat)
    (relFunc : ReleaseFunc) (p : Parcel) : Parcel :=
  { p with
    mData := some data
    mDataSize := size
    mDataCapacity := size
    mObjects := some objects
    mObjectsSize := count
    mObjectsCapacity := count
    mOwner := some relFunc }

/-- `Parcel_ipcSetDataReference` -/
def ipcSetDataReference (x : Outside W) (data : Block UInt8) (size : Nat) (objects : Block Nat)
    (count : Nat) (relFunc : ReleaseFunc) : Prog (Ctx W) Fault Unit := do
  freeData x
  update (refer data size objects count relFunc)
  checkObjects count 0 0
  scanForFds

/-! ## Which objects stay -/

/-- The offsets lie apart in ascending order, and each leads to an object of a supported type. -/
def offsetsPass (cells : List UInt8) : List Nat → Nat → Bool
  | [], _ => true
  | offset :: rest, minOffset => decide (minOffset ≤ offset) &&
    supported (bytesWord 32 (window cells offset 4)) &&
    offsetsPass cells rest (sz (offset + FLAT_SIZE))

/-- The parcel has exactly the buffer, and lists its objects unless one does not pass. -/
structure Delivered (buffer : Block UInt8) (size : Nat) (offsets : Block Nat) (count : Nat)
    (relFunc : ReleaseFunc) (p : Parcel) : Prop where
  data : p.mData = some buffer
  dataSize : p.mDataSize = size
  pos : p.mDataPos = 0
  error : p.mError = STATUS_OK
  objects : p.mObjects = some offsets
  objectsSize : p.mObjectsSize =
    if offsetsPass buffer.cells (offsets.cells.take count) 0 = true then count else 0
  owner : p.mOwner = some relFunc

variable {c : Ctx W} {n i m : Nat}

theorem wp_loadObject_table {Q : Nat → Ctx W → Prop}
    (h : ∀ o, c.parcel.table[i]? = some o → Q o c) :
    wp (loadObject i) Q (fun _ => True) c := by
  cases ho : c.parcel.table[i]? with
  | some o =>
    rw [wp_loadObject ho]
    exact h o ho
  | none =>
    unfold Parcel.table at ho
    unfold wp loadObject
    cases ht : c.parcel.mObjects with
    | none => trivial
    | some t =>
      rw [ht] at ho
      have hcell : t.cells[i]? = none := ho
      simp only [hcell]

theorem wp_loadData_window {Q : List UInt8 → Ctx W → Prop} {pos : Nat}
    (h : pos + n ≤ c.parcel.cells.length → Q (window c.parcel.cells pos n) c)
    (hnull : c.parcel.mData.isSome = true) : wp (loadData pos n) Q (fun _ => True) c := by
  by_cases hin : pos + n ≤ c.parcel.cells.length
  · rw [wp_loadData hin]
    exact h hin
  · unfold Parcel.cells at hin
    unfold wp loadData
    cases hd : c.parcel.mData with
    | none =>
      rw [hd] at hnull
      cases hnull
    | some b =>
      rw [hd] at hin
      have hout : ¬pos + n ≤ b.cells.length := hin
      simp only [if_neg hout]

theorem checkObjects.spec (hnull : c.parcel.mData.isSome = true) :
    wp (checkObjects n i m) (fun _ c' => c' =
      if offsetsPass c.parcel.cells ((c.parcel.table.drop i).take n) m = true then c
      else c.mapParcel withoutObjects) (fun _ => True) c := by
  induction n generalizing i m with
  | zero =>
    unfold checkObjects
    rw [wp_pure, List.take_zero]
    rfl
  | succ n ih =>
    unfold checkObjects
    rw [wp_bind]
    refine wp_loadObject_table fun offset hoffset => ?_
    have hdrop : c.parcel.table.drop i = offset :: c.parcel.table.drop (i + 1) := by
      obtain ⟨hlt, hget⟩ := List.getElem?_eq_some_iff.mp hoffset
      rw [List.drop_eq_getElem_cons hlt, hget]
    rw [hdrop, List.take_succ_cons]
    unfold offsetsPass
    split
    · rename_i hbefore
      rw [wp_update, if_neg (by simp; omega)]
    · rename_i hafter
      rw [wp_bind]
      refine wp_loadData_window (fun hin => ?_) hnull
      split
      · rename_i hsupported
        refine wp_imp ih fun _ c' hc' => ?_
        rw [hc', hsupported, decide_eq_true (by omega), Bool.true_and, Bool.true_and]
      · rename_i hother
        rw [wp_update, if_neg (by simp [hother])]

theorem loadData.keeps {pos : Nat} :
    wp (loadData pos n) (fun _ c' => c' = c) (fun _ => True) c := by
  unfold wp loadData
  cases c.parcel.mData with
  | none =>
    by_cases hn : n = 0
    · simp only [if_pos hn]
    · simp only [if_neg hn]
  | some b =>
    by_cases hin : pos + n ≤ b.cells.length
    · simp only [if_pos hin]
    · simp only [if_neg hin]

theorem storeData.keeps {pos : Nat} {xs : List UInt8} :
    wp (storeData pos xs) (fun _ c' => c'.world = c.world) (fun _ => True) c := by
  unfold wp storeData
  cases c.parcel.mData with
  | none =>
    by_cases hxs : xs = []
    · simp only [if_pos hxs]
    · simp only [if_neg hxs]
  | some b =>
    by_cases hin : pos + xs.length ≤ b.cells.length
    · simp only [if_pos hin]
      rfl
    · simp only [if_neg hin]

theorem scanFrom.keeps {offset len : Nat} {c : Ctx W} :
    wp (scanFrom offset len n i) (fun _ c' => c' = c) (fun _ => True) c := by
  induction n generalizing i with
  | zero => exact rfl
  | succ n ih =>
    unfold scanFrom
    rw [wp_bind]
    refine wp_loadObject_table fun pos _ => ?_
    split
    · exact ih
    · split
      · rw [wp_bind, wp_thisParcel]
        split
        · exact rfl
        · exact ih
      · rw [wp_bind]
        refine wp_imp loadData.keeps fun type c' hc' => ?_
        rw [hc']
        split
        · exact rfl
        · exact ih

theorem scanForFds.spec : wp scanForFds (fun _ c' => ∃ fds, c' =
    c.mapParcel fun p => { p with mHasFds := fds, mFdsKnown := true }) (fun _ => True) c := by
  unfold scanForFds hasFileDescriptorsInRange dataSize
  simp only [wp_bind, wp_thisParcel, wp_pure]
  split
  · exact ⟨_, rfl⟩
  · split
    · exact ⟨_, rfl⟩
    · rw [wp_bind]
      refine wp_imp scanFrom.keeps fun fds c' hc' => ?_
      rw [hc']
      exact ⟨_, rfl⟩

/-! ## The rest of the process -/

/-- What the functions outside keep, other than the one that hands a buffer back. -/
structure OutsideKeeps (x : Outside W) (R : W → W → Prop) : Prop where
  frame : Frame R fun _ (_ : Fault) => True
  incStrong : ∀ a, Keeps R (fun _ _ => True) (x.incStrong a)
  decStrong : ∀ a, Keeps R (fun _ _ => True) (x.decStrong a)
  getStrongProxyForHandle : ∀ h, Keeps R (fun _ _ => True) (x.getStrongProxyForHandle h)
  close : ∀ fd, Keeps R (fun _ _ => True) (x.close fd)

variable {x : Outside W} {R : W → W → Prop}

/-- The parcel stays, and the rest of the process keeps what is kept there. -/
theorem wp_outside_keeps {α : Type} {m : Prog W Fault α} (h : Keeps R (fun _ _ => True) m) :
    wp (outside m) (fun _ c' => R c.world c'.world ∧ c'.parcel = c.parcel) (fun _ => True) c := by
  rw [wp_outside]
  exact wp_mono (h c.world) (fun _ _ hr => ⟨hr, rfl⟩) fun _ _ => trivial

theorem loadFlat.keeps : wp (loadFlat i) (fun _ c' => c' = c) (fun _ => True) c := by
  unfold loadFlat
  rw [wp_bind]
  refine wp_loadObject_table fun o _ => ?_
  rw [wp_bind]
  exact loadData.keeps

/-- What is done with one object after another keeps what it keeps with one. -/
theorem OutsideKeeps.release (h : OutsideKeeps x R) (obj : FlatBinderObject) :
    Keeps R (fun _ _ => True) (release_object x obj) := by
  unfold release_object
  refine .ite (.ite (h.decStrong _) (h.frame.pure _)) (.ite ?_ (.ite (.ite (h.close _)
    (h.frame.pure _)) (h.frame.pure _)))
  exact h.frame.bind (h.getStrongProxyForHandle _) fun ibinder =>
    .ite (h.decStrong ibinder) (h.frame.pure _)

theorem releaseDown.keeps (h : OutsideKeeps x R) :
    wp (releaseDown x i) (fun _ c' => R c.world c'.world ∧ c'.parcel = c.parcel)
      (fun _ => True) c := by
  induction i generalizing c with
  | zero => exact ⟨h.frame.refl _, rfl⟩
  | succ i ih =>
    unfold releaseDown
    rw [wp_bind]
    refine wp_imp loadFlat.keeps fun obj c₁ hc₁ => ?_
    rw [hc₁, wp_bind]
    refine wp_imp (wp_outside_keeps (h.release obj)) fun _ c₂ ⟨hr, hp⟩ => ?_
    refine wp_imp ih fun _ c₃ ⟨hr', hp'⟩ => ?_
    exact ⟨h.frame.trans hr hr', hp'.trans hp⟩

theorem closeDown.keeps (h : OutsideKeeps x R) :
    wp (closeDown x i) (fun _ c' => R c.world c'.world ∧ c'.parcel = c.parcel)
      (fun _ => True) c := by
  induction i generalizing c with
  | zero => exact ⟨h.frame.refl _, rfl⟩
  | succ i ih =>
    unfold closeDown
    rw [wp_bind]
    refine wp_imp loadFlat.keeps fun obj c₁ hc₁ => ?_
    rw [hc₁]
    simp only
    split
    · rw [wp_bind]
      refine wp_imp (wp_outside_keeps (h.close _)) fun _ c₂ ⟨hr, hp⟩ => ?_
      refine wp_imp ih fun _ c₃ ⟨hr', hp'⟩ => ?_
      exact ⟨h.frame.trans hr hr', hp'.trans hp⟩
    · exact ih

/-- The address of the buffer that a parcel hands back. -/
def address (p : Parcel) : Nat := (p.mData.map Block.address).getD 0

/-- Giving back memory is nothing to the rest of the process. -/
theorem freeOwnData.keeps : wp freeOwnData (fun _ c' => c'.world = c.world) (fun _ => True) c := by
  unfold freeOwnData
  rw [wp_bind, wp_thisParcel]
  split
  · rfl
  · simp only [wp_bind, wp_updateHeap]
    split
    · rw [wp_bind]
      refine wp_imp storeData.keeps fun _ c₂ hw => ?_
      rw [wp_bind, wp_thisParcel]
      split
      · exact hw
      · exact hw
    · rw [wp_bind, wp_thisParcel]
      split
      · rfl
      · rfl

theorem freeOwnObjects.keeps :
    wp freeOwnObjects (fun _ c' => c'.world = c.world) (fun _ => True) c := by
  unfold freeOwnObjects
  rw [wp_bind, wp_thisParcel]
  split
  · rfl
  · rfl

/-- A parcel that gives up its data is empty, and hands back no buffer but its own. -/
theorem freeData.keeps (h : OutsideKeeps x R)
    (hfree : c.parcel.mOwner.isSome = true →
      Keeps R (fun _ _ => True) (x.freeBuffer c.parcel.address)) :
    wp (freeData x) (fun _ c' => R c.world c'.world ∧ c'.parcel = empty) (fun _ => True) c := by
  have hdata : wp (freeDataNoInit x) (fun _ c' => R c.world c'.world) (fun _ => True) c := by
    unfold freeDataNoInit
    rw [wp_bind, wp_thisParcel]
    split
    · rename_i relFunc howner
      cases relFunc
      unfold callOwner closeFileDescriptors
      simp only [wp_bind, wp_thisParcel]
      refine wp_imp (closeDown.keeps h) ?_
      rintro _ c₁ ⟨hr, hp⟩
      rw [hp]
      refine wp_imp (wp_outside_keeps (hfree (by rw [howner]; rfl))) ?_
      rintro _ c₂ ⟨hr', -⟩
      exact h.frame.trans hr hr'
    · unfold releaseObjects
      simp only [wp_bind, wp_thisParcel]
      refine wp_imp (releaseDown.keeps h) ?_
      rintro _ c₁ ⟨hr, -⟩
      refine wp_imp freeOwnData.keeps fun _ c₂ hw => ?_
      refine wp_imp freeOwnObjects.keeps fun _ c₃ hw' => ?_
      rwa [hw', hw]
  unfold freeData initState
  rw [wp_bind]
  refine wp_imp hdata fun _ c' hr => ?_
  exact ⟨hr, rfl⟩

/-- A parcel that takes a buffer refers to exactly that buffer, lists its objects unless one does
not pass, and hands back no buffer but its old one. -/
theorem ipcSetDataReference.refers {buffer : Block UInt8} {offsets : Block Nat} {size count : Nat}
    {relFunc : ReleaseFunc} (h : OutsideKeeps x R) (hfree : c.parcel.mOwner.isSome = true →
      Keeps R (fun _ _ => True) (x.freeBuffer c.parcel.address)) :
    wp (ipcSetDataReference x buffer size offsets count relFunc)
      (fun _ c' => R c.world c'.world ∧ ∃ fds, c'.parcel =
        { refer buffer size offsets count relFunc empty with
          mObjectsSize :=
            if offsetsPass buffer.cells (offsets.cells.take count) 0 = true then count else 0
          mHasFds := fds
          mFdsKnown := true }) (fun _ => True) c := by
  unfold ipcSetDataReference
  rw [wp_bind]
  refine wp_imp (freeData.keeps h hfree) fun _ c₁ ⟨hr, hempty⟩ => ?_
  rw [wp_bind, wp_update, wp_bind]
  refine wp_imp (checkObjects.spec rfl) fun _ c₂ hc₂ => ?_
  refine wp_imp scanForFds.spec fun _ c₃ ⟨fds, hc₃⟩ => ?_
  have hcells : (c₁.mapParcel (refer buffer size offsets count relFunc)).parcel.cells =
      buffer.cells := rfl
  have htable : (c₁.mapParcel (refer buffer size offsets count relFunc)).parcel.table =
      offsets.cells := rfl
  rw [hcells, htable, List.drop_zero] at hc₂
  rw [hc₃, hc₂]
  split
  · rename_i hpass
    exact ⟨hr, fds, by simp only [Ctx.parcel_mapParcel, hempty, refer]⟩
  · rename_i hfail
    exact ⟨hr, fds, by simp only [Ctx.parcel_mapParcel, hempty, refer, withoutObjects]⟩

theorem ipcSetDataReference.spec {buffer : Block UInt8} {offsets : Block Nat} {size count : Nat}
    {relFunc : ReleaseFunc} (h : OutsideKeeps x R) (hfree : c.parcel.mOwner.isSome = true →
      Keeps R (fun _ _ => True) (x.freeBuffer c.parcel.address)) :
    wp (ipcSetDataReference x buffer size offsets count relFunc)
      (fun _ c' => R c.world c'.world ∧ Delivered buffer size offsets count relFunc c'.parcel)
      (fun _ => True) c := by
  refine wp_imp (ipcSetDataReference.refers h hfree) fun _ c' ⟨hr, fds, hp⟩ => ⟨hr, ?_⟩
  rw [hp]
  exact ⟨rfl, rfl, rfl, rfl, rfl, rfl, rfl⟩

end system_binder.Parcel
