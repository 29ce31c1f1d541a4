-- The counters of the memory that parcels own. Each call on a parcel moves them by exactly what
-- the call does to that parcel, so they are sums over all parcels after any calls.
import SystemBinder.ParcelFrames

open prog memory

namespace system_binder

namespace Parcel

variable {W α : Type} {c c' c'' : Ctx W}

/-! ## What a parcel counts for -/

/-- What the parcel counts for in `gParcelGlobalAllocSize`. -/
def ownedCapacity (p : Parcel) : Nat := if p.mOwner = none then p.mDataCapacity else 0

/-- What the parcel counts for in `gParcelGlobalAllocCount`. -/
def ownedBuffers (p : Parcel) : Nat :=
  if p.mOwner = none ∧ p.mData.isSome = true then 1 else 0

/-- A buffer of its own is as large as the parcel says. -/
structure Filled (p : Parcel) : Prop where
  length : p.mOwner = none → p.cells.length = p.mDataCapacity
  capacity : p.mOwner = none → p.mDataCapacity ≤ INT32_MAX

theorem Filled.of_owner {p : Parcel} (h : p.mOwner ≠ none) : Filled p :=
  ⟨fun hno => absurd hno h, fun hno => absurd hno h⟩

theorem filled_empty : Filled empty := ⟨fun _ => rfl, fun _ => Nat.zero_le _⟩

/-! ## Counters that follow -/

/-- A counter that went from `n` to `n'` followed a value that went from `a` to `a'`. -/
structure Follows (n n' a a' : Nat) : Prop where
  moved : sz (n' + a) = sz (n + a')
  fits : n < 2 ^ 64 → n' < 2 ^ 64

namespace Follows

variable {n n' n'' a a' a'' d : Nat}

theorem refl (n a : Nat) : Follows n n a a := ⟨rfl, id⟩

theorem trans (h : Follows n n' a a') (h' : Follows n' n'' a' a'') : Follows n n'' a a'' := by
  refine ⟨?_, fun hn => h'.fits (h.fits hn)⟩
  have hone := h.moved
  have htwo := h'.moved
  unfold sz at *
  omega

theorem add (n : Nat) (ha : a' = a + d) : Follows n (sz (n + d)) a a' := by
  constructor
  · unfold sz
    omega
  · intro _
    unfold sz
    omega

theorem sub (n : Nat) (hd : d < 2 ^ 64) (ha : a = a' + d) : Follows n (szSub n d) a a' := by
  unfold szSub
  constructor
  · unfold sz
    split <;> omega
  · intro hn
    split <;> omega

/-- A counter that held `a`, and maybe more, up to wraps. -/
theorem eq_sum (h : Follows n n' a a') (hn : n = sz (a + d)) : n' = sz (a' + d) := by
  have hlt : n' < 2 ^ 64 := h.fits (by rw [hn]; exact Nat.mod_lt _ (by decide))
  have hmoved := h.moved
  unfold sz at *
  omega

end Follows

/-- The counters followed what the parcel counts for. -/
structure InStep (c c' : Ctx W) : Prop where
  filled : Filled c'.parcel
  size : Follows c.heap.gParcelGlobalAllocSize c'.heap.gParcelGlobalAllocSize
    c.parcel.ownedCapacity c'.parcel.ownedCapacity
  count : Follows c.heap.gParcelGlobalAllocCount c'.heap.gParcelGlobalAllocCount
    c.parcel.ownedBuffers c'.parcel.ownedBuffers

theorem InStep.trans (h : InStep c c') (h' : InStep c' c'') : InStep c c'' :=
  ⟨h'.filled, h.size.trans h'.size, h.count.trans h'.count⟩

/-- No counter moved, and the buffer is as large as it was. -/
structure Unmoved (c c' : Ctx W) : Prop where
  buffer : SameBuffer c.parcel c'.parcel
  size : c'.heap.gParcelGlobalAllocSize = c.heap.gParcelGlobalAllocSize
  count : c'.heap.gParcelGlobalAllocCount = c.heap.gParcelGlobalAllocCount

theorem unmoved_refl (c : Ctx W) : Unmoved c c := ⟨⟨rfl, rfl, rfl, rfl, rfl⟩, rfl, rfl⟩

instance : WriteFrame (Unmoved (W := W)) where
  frame :=
    { refl := unmoved_refl
      trans := fun a b => ⟨⟨b.buffer.owner.trans a.buffer.owner, b.buffer.zero.trans a.buffer.zero,
        b.buffer.data.trans a.buffer.data, b.buffer.length.trans a.buffer.length,
        b.buffer.capacity.trans a.buffer.capacity⟩, b.size.trans a.size, b.count.trans a.count⟩
      stops := fun _ _ => trivial }
  parcel := fun _ _ h => ⟨h, rfl, rfl⟩
  next := fun c => ⟨(unmoved_refl c).buffer, rfl, rfl⟩
  locals := fun c _ => ⟨(unmoved_refl c).buffer, rfl, rfl⟩
  world := fun c _ => ⟨(unmoved_refl c).buffer, rfl, rfl⟩

theorem Unmoved.filled (h : Unmoved c c') (hfilled : Filled c.parcel) : Filled c'.parcel := by
  constructor
  · intro ho
    rw [h.buffer.length, h.buffer.capacity]
    exact hfilled.length (h.buffer.owner ▸ ho)
  · intro ho
    rw [h.buffer.capacity]
    exact hfilled.capacity (h.buffer.owner ▸ ho)

theorem Unmoved.ownedCapacity (h : Unmoved c c') :
    c'.parcel.ownedCapacity = c.parcel.ownedCapacity := by
  unfold Parcel.ownedCapacity
  rw [h.buffer.owner, h.buffer.capacity]

theorem Unmoved.ownedBuffers (h : Unmoved c c') :
    c'.parcel.ownedBuffers = c.parcel.ownedBuffers := by
  unfold Parcel.ownedBuffers
  rw [h.buffer.owner, h.buffer.data]

/-- What is done before no counter moved. -/
theorem InStep.after (h : InStep c' c'') (hbefore : Unmoved c c') : InStep c c'' := by
  refine ⟨h.filled, ?_, ?_⟩
  · rw [← hbefore.size, ← hbefore.ownedCapacity]
    exact h.size
  · rw [← hbefore.count, ← hbefore.ownedBuffers]
    exact h.count

theorem Unmoved.inStep (h : Unmoved c c') (hfilled : Filled c.parcel) : InStep c c' :=
  InStep.after ⟨h.filled hfilled, .refl _ _, .refl _ _⟩ h

/-- What is done to a parcel of the right size keeps the counters in step. -/
def KeepsStep (c c' : Ctx W) : Prop := Filled c.parcel → InStep c c'

instance : WriteFrame (KeepsStep (W := W)) where
  frame :=
    { refl := fun c => (unmoved_refl c).inStep
      trans := fun a b h => (a h).trans (b (a h).filled)
      stops := fun _ _ => trivial }
  parcel := fun c f h => Unmoved.inStep (WriteFrame.parcel c f h)
  next := fun c => Unmoved.inStep (WriteFrame.next c)
  locals := fun c n => Unmoved.inStep (WriteFrame.locals c n)
  world := fun c w => Unmoved.inStep (WriteFrame.world c w)

theorem KeepsStep.of {m : Prog (Ctx W) Fault α}
    (h : ∀ c, Filled c.parcel → wp m (fun _ c' => InStep c c') (fun _ => True) c) :
    Writes KeepsStep m := by
  intro c
  by_cases hfilled : Filled c.parcel
  · exact wp_imp (h c hfilled) fun _ _ h' _ => h'
  · exact wp_of_all (fun _ _ hno => absurd hno hfilled) fun _ => trivial

/-! ## Giving up the buffer -/

theorem ownedCapacity_of_owner {p : Parcel} (h : p.mOwner ≠ none) : p.ownedCapacity = 0 := if_neg h

theorem ownedBuffers_of_owner {p : Parcel} (h : p.mOwner ≠ none) : p.ownedBuffers = 0 :=
  if_neg fun hno => h hno.1

theorem ownedCapacity_own {p : Parcel} (h : p.mOwner = none) : p.ownedCapacity = p.mDataCapacity :=
  if_pos h

theorem ownedBuffers_own {p : Parcel} {b : Block UInt8} (h : p.mOwner = none)
    (hdata : p.mData = some b) : p.ownedBuffers = 1 :=
  if_pos ⟨h, by rw [hdata]; rfl⟩

theorem ownedBuffers_bare {p : Parcel} (hdata : p.mData = none) : p.ownedBuffers = 0 :=
  if_neg fun hno => by
    rw [hdata] at hno
    cases hno.2

/-- Without a buffer of its own a parcel has no room. -/
theorem Filled.bare {p : Parcel} (h : Filled p) (howner : p.mOwner = none)
    (hdata : p.mData = none) : p.mDataCapacity = 0 := by
  rw [← h.length howner]
  unfold Parcel.cells
  rw [hdata]
  rfl

/-- The counters followed a parcel to nothing. -/
structure Uncounted (c c' : Ctx W) : Prop where
  size : Follows c.heap.gParcelGlobalAllocSize c'.heap.gParcelGlobalAllocSize
    c.parcel.ownedCapacity 0
  count : Follows c.heap.gParcelGlobalAllocCount c'.heap.gParcelGlobalAllocCount
    c.parcel.ownedBuffers 0

theorem Uncounted.then (h : Uncounted c c') (h' : Unmoved c' c'') : Uncounted c c'' :=
  ⟨by rw [h'.size]; exact h.size, by rw [h'.count]; exact h.count⟩

theorem Uncounted.after (h : Uncounted c' c'') (h' : Unmoved c c') : Uncounted c c'' :=
  ⟨by rw [← h'.size, ← h'.ownedCapacity]; exact h.size,
    by rw [← h'.count, ← h'.ownedBuffers]; exact h.count⟩

theorem freeOwnData.uncounts (hfilled : Filled c.parcel) (howner : c.parcel.mOwner = none) :
    wp freeOwnData (fun _ c' => Uncounted c c') (fun _ => True) c := by
  unfold freeOwnData
  rw [wp_bind, wp_thisParcel]
  cases hdata : c.parcel.mData with
  | none =>
    have hcapacity := ownedCapacity_own howner
    rw [hfilled.bare howner hdata] at hcapacity
    refine ⟨?_, ?_⟩
    · rw [hcapacity]
      exact .refl _ _
    · rw [ownedBuffers_bare hdata]
      exact .refl _ _
  | some b =>
    have hcapacity : c.parcel.mDataCapacity < 2 ^ 64 :=
      Nat.lt_of_le_of_lt (hfilled.capacity howner) (by decide)
    have hone : Uncounted c
        ((c.mapHeap (Heap.subSize c.parcel.mDataCapacity)).mapHeap Heap.decCount) := by
      refine ⟨.sub _ hcapacity ?_, .sub _ (by decide) ?_⟩
      · rw [ownedCapacity_own howner, Nat.zero_add]
      · rw [ownedBuffers_own howner hdata]
    dsimp only
    rw [wp_bind, wp_updateHeap, wp_bind, wp_updateHeap]
    split
    · rw [wp_bind]
      refine wp_imp (Writes.storeData (R := Unmoved) 0 _ _) fun _ c₂ h => ?_
      rw [wp_bind, wp_thisParcel]
      split
      · exact hone.then h
      · exact hone.then ⟨h.buffer, h.size, h.count⟩
    · rw [wp_bind, wp_thisParcel]
      split
      · exact hone
      · exact ⟨hone.size, hone.count⟩

theorem freeOwnObjects.unmoved : Writes Unmoved (freeOwnObjects : Prog (Ctx W) Fault Unit) := by
  refine Writes.thisParcel.bind fun p => ?_
  cases p.mObjects with
  | none => exact Writes.pure _
  | some table => exact fun c => ⟨(unmoved_refl c).buffer, rfl, rfl⟩

theorem freeData.uncounts {x : Outside W} (hfilled : Filled c.parcel) :
    wp (freeData x) (fun _ c' => Uncounted c c' ∧ c'.parcel = empty) (fun _ => True) c := by
  have hend : ∀ c₁ : Ctx W, Uncounted c c₁ → Uncounted c (c₁.mapParcel fun _ => empty) :=
    fun _ h => ⟨h.size, h.count⟩
  unfold freeData freeDataNoInit initState
  rw [wp_bind, wp_bind, wp_thisParcel]
  cases howner : c.parcel.mOwner with
  | some relFunc =>
    have hother : c.parcel.mOwner ≠ none := by
      rw [howner]
      exact fun hno => by cases hno
    have hnothing : Uncounted c c := by
      constructor
      · rw [ownedCapacity_of_owner hother]
        exact .refl _ _
      · rw [ownedBuffers_of_owner hother]
        exact .refl _ _
    exact wp_imp (Writes.callOwner (R := Unmoved) x relFunc c) fun _ c₁ h =>
      ⟨hend c₁ (hnothing.then h), rfl⟩
  | none =>
    have hreleased : Writes Unmoved (releaseObjects x) :=
      Writes.thisParcel.bind fun _ => Writes.releaseDown x _
    dsimp only
    rw [wp_bind]
    refine wp_imp (hreleased c) fun _ c₁ h₁ => ?_
    have howner₁ : c₁.parcel.mOwner = none := h₁.buffer.owner.trans howner
    rw [wp_bind]
    refine wp_imp (freeOwnData.uncounts (h₁.filled hfilled) howner₁) fun _ c₂ h₂ => ?_
    exact wp_imp (freeOwnObjects.unmoved c₂) fun _ c₃ h₃ =>
      ⟨hend c₃ ((h₂.after h₁).then h₃), rfl⟩

theorem Uncounted.inStep (h : Uncounted c c') (hfilled : Filled c'.parcel)
    (hnothing : c'.parcel.ownedCapacity = 0 ∧ c'.parcel.ownedBuffers = 0) : InStep c c' :=
  ⟨hfilled, hnothing.1 ▸ h.size, hnothing.2 ▸ h.count⟩

theorem freeData.inStep (x : Outside W) : Writes KeepsStep (freeData x) := by
  refine KeepsStep.of fun c hfilled => ?_
  refine wp_imp (freeData.uncounts hfilled) fun _ c' ⟨h, hempty⟩ => ?_
  apply h.inStep
  · rw [hempty]
    exact filled_empty
  · rw [hempty]
    exact ⟨rfl, rfl⟩

/-- A parcel over a buffer of the driver counts for nothing. -/
theorem ipcSetDataReference.inStep (x : Outside W) (data : Block UInt8) (size : Nat)
    (objects : Block Nat) (count : Nat) (relFunc : ReleaseFunc) :
    Writes KeepsStep (ipcSetDataReference x data size objects count relFunc) := by
  refine KeepsStep.of fun c hfilled => ?_
  unfold ipcSetDataReference
  rw [wp_bind]
  refine wp_imp (freeData.uncounts hfilled) fun _ c₁ ⟨h₁, _⟩ => ?_
  rw [wp_bind, wp_update]
  have hchecks : Writes Unmoved (do
      checkObjects count 0 0
      scanForFds : Prog (Ctx W) Fault Unit) :=
    (Writes.checkObjects count 0 0).bind fun _ => Writes.scanForFds
  refine wp_imp (hchecks _) fun _ c₂ h₂ => ?_
  have howner : c₂.parcel.mOwner ≠ none := by
    rw [h₂.buffer.owner]
    exact fun hno => by cases hno
  have hcounts : Uncounted c c₂ := (⟨h₁.size, h₁.count⟩ : Uncounted c
    (c₁.mapParcel (refer data size objects count relFunc))).then h₂
  exact hcounts.inStep (.of_owner howner)
    ⟨ownedCapacity_of_owner howner, ownedBuffers_of_owner howner⟩

/-! ## Growing -/

theorem InStep.of_counts {a a' b b' : Nat} (hfilled : Filled c'.parcel)
    (ha : c.parcel.ownedCapacity = a) (ha' : c'.parcel.ownedCapacity = a')
    (hb : c.parcel.ownedBuffers = b) (hb' : c'.parcel.ownedBuffers = b')
    (hsize : Follows c.heap.gParcelGlobalAllocSize c'.heap.gParcelGlobalAllocSize a a')
    (hcount : Follows c.heap.gParcelGlobalAllocCount c'.heap.gParcelGlobalAllocCount b b') :
    InStep c c' := by
  subst ha ha' hb hb'
  exact ⟨hfilled, hsize, hcount⟩

/-- A parcel that counted for nothing gets a buffer of its own. -/
theorem InStep.of_new {f : Parcel → Parcel} {b : Block UInt8} {desired : Nat}
    (hnothing : c.parcel.ownedCapacity = 0 ∧ c.parcel.ownedBuffers = 0) (h : Unmoved c c')
    (howner : (f c'.parcel).mOwner = none) (hdata : (f c'.parcel).mData = some b)
    (hcapacity : (f c'.parcel).mDataCapacity = desired) (hlength : b.cells.length = desired)
    (hdesired : desired ≤ INT32_MAX) :
    InStep c (((c'.mapHeap (Heap.addSize desired)).mapHeap Heap.incCount).mapParcel f) := by
  have hcells : (f c'.parcel).cells.length = desired := by
    unfold Parcel.cells
    rw [hdata]
    exact hlength
  refine InStep.of_counts ⟨fun _ => hcells.trans hcapacity.symm, fun _ => ?_⟩ hnothing.1
    ((ownedCapacity_own howner).trans hcapacity) hnothing.2 (ownedBuffers_own howner hdata) ?_ ?_
  · exact Nat.le_trans (Nat.le_of_eq hcapacity) hdesired
  · rw [← h.size]
    exact .add _ (Nat.zero_add _).symm
  · rw [← h.count]
    exact .add _ rfl

theorem resizeOwn.inStep {data b : Block UInt8} {desired : Nat} (hfilled : Filled c.parcel)
    (howner : c.parcel.mOwner = none) (hdata : c.parcel.mData = some b)
    (hlength : data.cells.length = c.parcel.mDataCapacity) (hdesired : desired ≤ INT32_MAX) :
    wp (resizeOwn desired data) (fun _ c' => InStep c c') (fun _ => True) c := by
  have hcapacity : c.parcel.mDataCapacity < 2 ^ 64 :=
    Nat.lt_of_le_of_lt (hfilled.capacity howner) (by decide)
  unfold resizeOwn
  rw [wp_bind, wp_thisParcel, wp_ite]
  refine ⟨fun _ => ?_, fun _ => ?_⟩
  · rw [wp_bind, reallocZeroFree.spec hlength]
    split
    · exact Unmoved.inStep ⟨⟨rfl, rfl, rfl, rfl, rfl⟩, rfl, rfl⟩ hfilled
    · simp only [wp_bind, wp_updateHeap, wp_update, wp_pure]
      refine InStep.of_counts ?_ (ownedCapacity_own howner) (ownedCapacity_own howner)
        (ownedBuffers_own howner hdata) (ownedBuffers_own howner rfl) ?_ ?_
      · exact ⟨fun _ => length_resized _ _ _, fun _ => hdesired⟩
      · exact (Follows.add _ rfl).trans (.sub _ hcapacity (Nat.add_comm _ _))
      · exact .refl _ _
  · exact Unmoved.inStep ⟨⟨rfl, rfl, rfl, rfl, rfl⟩, rfl, rfl⟩ hfilled

theorem firstData.inStep {desired : Nat} (hfilled : Filled c.parcel)
    (howner : c.parcel.mOwner = none) (hdata : c.parcel.mData = none)
    (hdesired : desired ≤ INT32_MAX) :
    wp (firstData desired) (fun _ c' => InStep c c') (fun _ => True) c := by
  unfold firstData malloc
  rw [wp_bind, wp_allocate]
  have hnext : Unmoved c (c.mapHeap Heap.next) := WriteFrame.next c
  cases c.heap.fresh c.heap.requests with
  | none => exact Unmoved.inStep ⟨⟨rfl, rfl, rfl, rfl, rfl⟩, rfl, rfl⟩ hfilled
  | some g =>
    simp only [Option.map_some, wp_bind, wp_updateHeap, wp_update, wp_pure]
    have hnothing : c.parcel.ownedCapacity = 0 ∧ c.parcel.ownedBuffers = 0 :=
      ⟨(ownedCapacity_own howner).trans (hfilled.bare howner hdata), ownedBuffers_bare hdata⟩
    exact InStep.of_new hnothing hnext howner rfl rfl (length_resized _ _ _) hdesired

/-- What was read of the data is no more than was asked for. -/
theorem loadData.length_le {pos n : Nat} :
    wp (loadData pos n) (fun bs c' => c' = c ∧ bs.length ≤ n) (fun _ => True) c := by
  unfold wp loadData
  cases c.parcel.mData with
  | none =>
    by_cases hn : n = 0
    · simp [hn]
    · simp [hn]
  | some b =>
    by_cases hin : pos + n ≤ b.cells.length
    · simp [hin, length_window hin]
    · simp [hin]

theorem takePossession.inStep {x : Outside W} {desired objectsSize : Nat} {data : Block UInt8}
    {objects : Option (Block Nat)} (howner : c.parcel.mOwner ≠ none)
    (hlength : data.cells.length = desired) (hdesired : desired ≤ INT32_MAX) :
    wp (takePossession x desired objectsSize data objects) (fun _ c' => InStep c c')
      (fun _ => True) c := by
  have hnothing : c.parcel.ownedCapacity = 0 ∧ c.parcel.ownedBuffers = 0 :=
    ⟨ownedCapacity_of_owner howner, ownedBuffers_of_owner howner⟩
  obtain ⟨relFunc, hrelFunc⟩ := Option.ne_none_iff_exists'.mp howner
  have hcopied : ∀ bytes : List UInt8, bytes.length ≤ desired →
      (overlay data.cells 0 bytes).length = desired := by
    intro bytes hbytes
    rw [length_overlay (by omega), hlength]
  unfold takePossession
  rw [wp_bind, wp_thisParcel]
  simp only [hrelFunc]
  split
  · rw [wp_bind]
    refine wp_imp loadData.length_le fun bytes c₁ ⟨hc₁, hbytes⟩ => ?_
    rw [hc₁, wp_bind]
    refine wp_imp (Writes.callOwner (R := Unmoved) x relFunc c) fun _ c₂ h => ?_
    exact InStep.of_new hnothing h rfl rfl rfl (hcopied bytes (by omega)) hdesired
  · rw [wp_bind, wp_pure, wp_bind]
    refine wp_imp (Writes.callOwner (R := Unmoved) x relFunc c) fun _ c₂ h => ?_
    exact InStep.of_new hnothing h rfl rfl rfl (hcopied [] (Nat.zero_le _)) hdesired

theorem continueOwned.inStep {x : Outside W} {desired objectsSize : Nat}
    (hfilled : Filled c.parcel) (howner : c.parcel.mOwner ≠ none)
    (hdesired : desired ≤ INT32_MAX) :
    wp (continueOwned x desired objectsSize) (fun _ c' => InStep c c') (fun _ => True) c := by
  have htake : ∀ {c₁ : Ctx W} {data : Block UInt8} (objects : Option (Block Nat)),
      data.cells.length = desired → Unmoved c c₁ →
      wp (takePossession x desired objectsSize data objects) (fun _ c' => InStep c c')
        (fun _ => True) c₁ := by
    intro c₁ data objects hlength h
    have hother : c₁.parcel.mOwner ≠ none := h.buffer.owner ▸ howner
    exact wp_imp (takePossession.inStep hother hlength hdesired) fun _ _ h' => h'.after h
  have hfails : ∀ {c₁ : Ctx W}, Unmoved c c₁ →
      wp (failWith STATUS_NO_MEMORY) (fun _ c' => InStep c c') (fun _ => True) c₁ := by
    intro c₁ h
    have hmarked : Unmoved c₁ (c₁.mapParcel fun p => { p with mError := STATUS_NO_MEMORY }) :=
      ⟨⟨rfl, rfl, rfl, rfl, rfl⟩, rfl, rfl⟩
    exact (Writes.frame.trans h hmarked : Unmoved c _).inStep hfilled
  have hnext : Unmoved c (c.mapHeap Heap.next) := WriteFrame.next c
  unfold continueOwned malloc
  rw [wp_ite]
  refine ⟨fun _ => ?_, fun _ => ?_⟩
  · rw [wp_bind]
    exact wp_imp (freeData.inStep x c) fun _ _ h => h hfilled
  · rw [wp_bind, wp_allocate]
    cases c.heap.fresh c.heap.requests with
    | none => exact hfails hnext
    | some g =>
      have hlength := length_resized [] desired (freshByte g)
      simp only [Option.map_some, wp_ite]
      refine ⟨fun _ => htake none hlength hnext, fun _ => ?_⟩
      have hnext₂ : Unmoved c ((c.mapHeap Heap.next).mapHeap Heap.next) :=
        Writes.frame.trans hnext (WriteFrame.next _)
      rw [wp_bind]
      unfold callocObjects
      rw [wp_allocate]
      cases (c.mapHeap Heap.next).heap.fresh (c.mapHeap Heap.next).heap.requests with
      | none => exact hfails ⟨hnext₂.buffer, rfl, rfl⟩
      | some g' =>
        simp only [Option.map_some, wp_bind, wp_thisParcel, wp_update]
        have hacquire : Writes Unmoved (acquireObjects x) :=
          Writes.thisParcel.bind fun _ => Writes.acquireDown x _
        refine wp_imp (hacquire _) fun _ c₁ h => ?_
        have hbuffer : SameBuffer c.parcel c₁.parcel :=
          (Writes.frame.trans hnext₂ (Writes.frame.trans
            (WriteFrame.parcel _ _ ⟨rfl, rfl, rfl, rfl, rfl⟩) h) : Unmoved c c₁).buffer
        exact htake _ hlength ⟨⟨hbuffer.owner, hbuffer.zero, hbuffer.data, hbuffer.length,
          hbuffer.capacity⟩, h.size, h.count⟩

theorem continueWrite.inStep (x : Outside W) (desired : Nat) :
    Writes KeepsStep (continueWrite x desired) := by
  refine KeepsStep.of fun c hfilled => ?_
  unfold continueWrite
  rw [wp_ite]
  refine ⟨fun _ => (unmoved_refl c).inStep hfilled, fun hsize => ?_⟩
  have hdesired : desired ≤ INT32_MAX := Nat.le_of_not_lt hsize
  rw [wp_bind, wp_thisParcel, wp_bind]
  refine wp_imp (Writes.countKept (R := Unmoved) desired c) fun objectsSize c₁ h => ?_
  rw [wp_ite]
  refine ⟨fun hsome => ?_, fun hnone => ?_⟩
  · have howner : c₁.parcel.mOwner ≠ none := by
      rw [h.buffer.owner]
      exact Option.isSome_iff_ne_none.mp hsome
    exact wp_imp (continueOwned.inStep (h.filled hfilled) howner hdesired) fun _ _ h' => h'.after h
  · have howner : c.parcel.mOwner = none := by simpa using hnone
    have howner₁ : c₁.parcel.mOwner = none := h.buffer.owner.trans howner
    cases hdata : c.parcel.mData with
    | none =>
      have hdata₁ : c₁.parcel.mData = none := by
        have hsame := h.buffer.data
        rw [hdata] at hsame
        simpa using hsame
      exact wp_imp (firstData.inStep (h.filled hfilled) howner₁ hdata₁ hdesired)
        fun _ _ h' => h'.after h
    | some data =>
      have hlength : data.cells.length = c.parcel.mDataCapacity := by
        rw [← hfilled.length howner]
        unfold Parcel.cells
        rw [hdata]
        rfl
      have hresize : ∀ c₂ : Ctx W, Unmoved c c₂ →
          wp (resizeOwn desired data) (fun _ c' => InStep c c') (fun _ => True) c₂ := by
        intro c₂ h₂
        have hsome : c₂.parcel.mData.isSome = true := by
          rw [h₂.buffer.data, hdata]
          rfl
        obtain ⟨b, hb⟩ := Option.isSome_iff_exists.mp hsome
        have hresized := resizeOwn.inStep (h₂.filled hfilled) (h₂.buffer.owner.trans howner) hb
          (hlength.trans h₂.buffer.capacity.symm) hdesired
        exact wp_imp hresized fun _ _ h' => h'.after h₂
      dsimp only
      rw [wp_ite]
      refine ⟨fun _ => ?_, fun _ => hresize c₁ h⟩
      rw [wp_bind]
      refine wp_imp (Writes.dropObjects (R := Unmoved) x objectsSize c₁) fun _ c₂ h₂ => ?_
      exact hresize c₂ (Writes.frame.trans h h₂)

/-! ## The calls -/

/-- What is done with a parcel. -/
inductive ParcelCall
  | write (w : MessageWrite)
  | writeInterfaceToken (interface : BinderString)
  | setDataSize (size : Nat)
  | setDataCapacity (size : Nat)
  | setDataPosition (pos : Nat)
  | markSensitive
  | ipcSetDataReference (data : Block UInt8) (dataSize : Nat) (objects : Block Nat)
      (objectsCount : Nat) (relFunc : ReleaseFunc)
  | freeData

/-- The call, without what it returns. -/
def runCall (x : Calls W) : ParcelCall → Prog (Ctx W) Fault Unit
  | .write w => do let _ ← runWrite x w
  | .writeInterfaceToken interface => do let _ ← Parcel.writeInterfaceToken x interface
  | .setDataSize size => do let _ ← Parcel.setDataSize x.toOutside size
  | .setDataCapacity size => do let _ ← Parcel.setDataCapacity x.toOutside size
  | .setDataPosition pos => Parcel.setDataPosition pos
  | .markSensitive => Parcel.markSensitive
  | .ipcSetDataReference data dataSize objects objectsCount relFunc =>
    Parcel.ipcSetDataReference x.toOutside data dataSize objects objectsCount relFunc
  | .freeData => Parcel.freeData x.toOutside

theorem markSensitive.inStep : Writes KeepsStep (markSensitive : Prog (Ctx W) Fault Unit) :=
  fun _ hfilled => ⟨⟨hfilled.length, hfilled.capacity⟩, .refl _ _, .refl _ _⟩

theorem runCall.inStep (x : Calls W) (call : ParcelCall) : Writes KeepsStep (runCall x call) := by
  have hgrow := continueWrite.inStep x.toOutside
  cases call with
  | write w => exact (Writes.runWrite hgrow w).bind fun _ => Writes.pure _
  | writeInterfaceToken interface =>
    exact (Writes.writeInterfaceToken hgrow interface).bind fun _ => Writes.pure _
  | setDataSize size => exact (Writes.setDataSize hgrow size).bind fun _ => Writes.pure _
  | setDataCapacity size => exact (Writes.setDataCapacity hgrow size).bind fun _ => Writes.pure _
  | setDataPosition pos => exact Writes.setDataPosition pos
  | markSensitive => exact markSensitive.inStep
  | ipcSetDataReference data dataSize objects objectsCount relFunc =>
    exact ipcSetDataReference.inStep _ data dataSize objects objectsCount relFunc
  | freeData => exact freeData.inStep _

end Parcel

/-! ## All parcels -/

/-- All parcels of a process, over one allocator. -/
structure Parcels (W : Type) where
  parcels : List Parcel
  heap : Heap
  world : W

namespace Parcels

open Parcel

variable {W : Type} {s s' : Parcels W}

/-- A call on the `k`-th parcel. -/
def call (x : Calls W) (o : Nat × ParcelCall) : Prog (Parcels W) Fault Unit := fun s =>
  match s.parcels[o.1]? with
  | none => .ok ((), s)
  | some p =>
    match runCall x o.2 ⟨p, s.heap, s.world⟩ with
    | .ok (_, c) => .ok ((), ⟨s.parcels.set o.1 c.parcel, c.heap, c.world⟩)
    | .error e => .error e

/-- Calls one after another, each on any of the parcels. -/
def calls (x : Calls W) : List (Nat × ParcelCall) → Prog (Parcels W) Fault Unit
  | [] => pure ()
  | o :: os => do
    call x o
    calls x os

def ownedCapacity (s : Parcels W) : Nat := (s.parcels.map Parcel.ownedCapacity).sum

def ownedBuffers (s : Parcels W) : Nat := (s.parcels.map Parcel.ownedBuffers).sum

/-- The counters are the sums, as a `size_t` holds them. -/
structure Counted (s : Parcels W) : Prop where
  filled : ∀ p ∈ s.parcels, Filled p
  size : s.heap.gParcelGlobalAllocSize = sz s.ownedCapacity
  count : s.heap.gParcelGlobalAllocCount = sz s.ownedBuffers

/-- A change in one place changes the sum by as much. -/
theorem sum_set {α : Type} (f : α → Nat) {l : List α} {k : Nat} {a : α} (h : l[k]? = some a)
    (a' : α) : ∃ rest, (l.map f).sum = f a + rest ∧ ((l.set k a').map f).sum = f a' + rest := by
  induction l generalizing k with
  | nil => simp at h
  | cons b l ih =>
    cases k with
    | zero =>
      cases h
      exact ⟨(l.map f).sum, by simp, by simp⟩
    | succ k =>
      obtain ⟨rest, hold, hnew⟩ := ih h
      refine ⟨f b + rest, ?_, ?_⟩
      · rw [List.map_cons, List.sum_cons, hold]
        omega
      · rw [List.set_cons_succ, List.map_cons, List.sum_cons, hnew]
        omega

theorem call.counted (x : Calls W) (o : Nat × ParcelCall) (h : Counted s) :
    wp (call x o) (fun _ s' => Counted s') (fun _ => True) s := by
  unfold wp call
  cases hp : s.parcels[o.1]? with
  | none => exact h
  | some p =>
    have hfilled : Filled p := h.filled p (List.mem_of_getElem? hp)
    have hone := runCall.inStep x o.2 ⟨p, s.heap, s.world⟩
    dsimp only
    cases hrun : runCall x o.2 ⟨p, s.heap, s.world⟩ with
    | error e => trivial
    | ok r =>
      have hstep : InStep ⟨p, s.heap, s.world⟩ r.2 := hone.of_ok hrun hfilled
      obtain ⟨size, hsize, hsize'⟩ := sum_set Parcel.ownedCapacity hp r.2.parcel
      obtain ⟨count, hcount, hcount'⟩ := sum_set Parcel.ownedBuffers hp r.2.parcel
      refine ⟨fun q hq => ?_, ?_, ?_⟩
      · rcases List.mem_or_eq_of_mem_set hq with hold | rfl
        · exact h.filled q hold
        · exact hstep.filled
      · unfold ownedCapacity
        rw [hsize']
        apply hstep.size.eq_sum
        rw [← hsize]
        exact h.size
      · unfold ownedBuffers
        rw [hcount']
        apply hstep.count.eq_sum
        rw [← hcount]
        exact h.count

theorem calls.counted (x : Calls W) (os : List (Nat × ParcelCall)) (h : Counted s) :
    wp (calls x os) (fun _ s' => Counted s') (fun _ => True) s := by
  induction os generalizing s with
  | nil => exact h
  | cons o os ih =>
    unfold calls
    rw [wp_bind]
    exact wp_imp (call.counted x o h) fun _ _ h' => ih h'

/-- All that the parcels own has room in one address space, as what an allocator gives out has. -/
def Fits (s : Parcels W) : Prop := s.ownedCapacity < 2 ^ 64 ∧ s.ownedBuffers < 2 ^ 64

instance (s : Parcels W) : Decidable s.Fits := inferInstanceAs (Decidable (_ ∧ _))

/-- The counters are the sums, and hold what any of the parcels may take off them. -/
structure Exact (s : Parcels W) : Prop where
  size : s.heap.gParcelGlobalAllocSize = s.ownedCapacity
  count : s.heap.gParcelGlobalAllocCount = s.ownedBuffers
  holdsSize : ∀ p ∈ s.parcels, p.ownedCapacity ≤ s.heap.gParcelGlobalAllocSize
  holdsCount : ∀ p ∈ s.parcels, p.ownedBuffers ≤ s.heap.gParcelGlobalAllocCount

theorem Counted.exact (h : Counted s) (hfits : s.Fits) : Exact s := by
  have hsize : s.heap.gParcelGlobalAllocSize = s.ownedCapacity :=
    h.size.trans (Nat.mod_eq_of_lt hfits.1)
  have hcount : s.heap.gParcelGlobalAllocCount = s.ownedBuffers :=
    h.count.trans (Nat.mod_eq_of_lt hfits.2)
  refine ⟨hsize, hcount, fun p hp => ?_, fun p hp => ?_⟩
  · rw [hsize]
    exact List.le_sum_of_mem (List.mem_map_of_mem hp)
  · rw [hcount]
    exact List.le_sum_of_mem (List.mem_map_of_mem hp)

theorem counted_of_empty (hparcels : ∀ p ∈ s.parcels, p = empty)
    (hsize : s.heap.gParcelGlobalAllocSize = 0) (hcount : s.heap.gParcelGlobalAllocCount = 0) :
    Counted s := by
  have hnothing : ∀ f : Parcel → Nat, f empty = 0 → (s.parcels.map f).sum = 0 := by
    intro f hf
    apply List.sum_eq_zero
    intro n hn
    obtain ⟨p, hp, rfl⟩ := List.mem_map.mp hn
    rw [hparcels p hp, hf]
  refine ⟨fun p hp => ?_, ?_, ?_⟩
  · rw [hparcels p hp]
    exact filled_empty
  · unfold ownedCapacity
    rw [hsize, hnothing _ rfl]
    rfl
  · unfold ownedBuffers
    rw [hcount, hnothing _ rfl]
    rfl

/-- After any calls on any parcels, whatever the allocator refused, the counters are the sums over
the parcels that own their data, and no parcel counts for more than the counters hold. -/
theorem counters_are_the_sums_over_all_parcels (x : Calls W) (os : List (Nat × ParcelCall))
    (s s' : Parcels W) (hparcels : ∀ p ∈ s.parcels, p = empty)
    (hsize : s.heap.gParcelGlobalAllocSize = 0) (hcount : s.heap.gParcelGlobalAllocCount = 0)
    (hrun : calls x os s = .ok ((), s')) : Counted s' ∧ (s'.Fits → Exact s') := by
  have hcounted : Counted s' :=
    (calls.counted x os (counted_of_empty hparcels hsize hcount)).of_ok hrun
  exact ⟨hcounted, hcounted.exact⟩

/-- An allocator that refuses the third request. -/
def refusing : Heap :=
  { plenty with fresh := fun n => if n = 2 then none else some fun _ => 0xAA }

def twoParcels : Parcels Unit := ⟨[empty, empty], refusing, ()⟩

/-- The first parcel grows, in vain at first. The second takes a buffer of the driver, and its
possession. -/
def mixed : List (Nat × ParcelCall) :=
  [(0, .write (.int32 1)), (1, .ipcSetDataReference ⟨1, [1, 0, 0, 0]⟩ 4 ⟨2, []⟩ 0 .freeBuffer),
    (1, .setDataCapacity 64), (0, .setDataCapacity 256), (0, .setDataCapacity 256)]

theorem counters_are_the_sums_over_two_parcels :
    ∃ s', calls quiet mixed twoParcels = .ok ((), s') ∧ s'.ownedCapacity = 320 ∧ Exact s' := by
  obtain ⟨u, s', hrun, hcapacity, hfits⟩ : ∃ u s', calls quiet mixed twoParcels = .ok (u, s') ∧
      s'.ownedCapacity = 320 ∧ s'.Fits := wp_never_iff.mp (by decide +kernel)
  have h := counters_are_the_sums_over_all_parcels quiet mixed twoParcels s' (by decide) rfl rfl
    hrun
  exact ⟨s', hrun, hcapacity, h.2 hfits⟩

end Parcels

end system_binder
