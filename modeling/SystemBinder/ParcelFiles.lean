-- What closes the files of a parcel: the release of its objects, one by one where it owns their
-- files, and the release of a buffer of the driver, all at once.
import SystemBinder.ParcelBalance

open prog memory

namespace system_binder.Parcel

/-! ## The files of a parcel -/

/-- The object is a file `fd`. -/
def IsFile (fd : BitVec 32) (obj : FlatBinderObject) : Bool :=
  obj.type == BINDER_TYPE_FD && obj.handle == fd

/-- The object is a file `fd` that the parcel owns. -/
def IsOwnedFile (fd : BitVec 32) (obj : FlatBinderObject) : Bool :=
  IsFile fd obj && obj.cookie != 0

def filesOf (fd : BitVec 32) (objs : List FlatBinderObject) : Nat := objs.countP (IsFile fd)

def ownedFilesOf (fd : BitVec 32) (objs : List FlatBinderObject) : Nat :=
  objs.countP (IsOwnedFile fd)

/-- No file among the objects is owned. -/
def NoneOwned (objs : List FlatBinderObject) : Prop :=
  ∀ obj ∈ objs, obj.type = BINDER_TYPE_FD → obj.cookie = 0

/-- The file that the object is. -/
def fileOf (obj : FlatBinderObject) : Option (BitVec 32) :=
  if obj.type = BINDER_TYPE_FD then some obj.handle else none

/-- How many files `fd` are closed when the parcel is freed: the ones it owns, or all of a buffer of
the driver. -/
def toClose (p : Parcel) (fd : BitVec 32) : Nat :=
  if p.mOwner = none then ownedFilesOf fd (listedObjects p) else filesOf fd (listedObjects p)

theorem NoneOwned.ownedFilesOf {objs : List FlatBinderObject} (h : NoneOwned objs)
    (fd : BitVec 32) : ownedFilesOf fd objs = 0 := by
  apply List.countP_eq_zero.mpr
  intro obj hmem howned
  simp only [IsOwnedFile, IsFile, Bool.and_eq_true, beq_iff_eq, bne_iff_ne] at howned
  exact howned.2 (h obj hmem howned.1.1)

theorem isFile_iff {fd : BitVec 32} {obj : FlatBinderObject} :
    IsFile fd obj = true ↔ fileOf obj = some fd := by
  unfold IsFile fileOf
  split
  · rename_i htype
    simp only [htype, beq_self_eq_true, Bool.true_and, beq_iff_eq, Option.some.injEq]
  · rename_i htype
    simp only [beq_false_of_ne htype, Bool.false_and, Bool.false_eq_true, reduceCtorEq]

theorem count_map_fileOf (fd : BitVec 32) (objs : List FlatBinderObject) :
    (objs.map fileOf).count (some fd) = filesOf fd objs := by
  unfold filesOf List.count
  rw [List.countP_map]
  apply List.countP_congr
  intro obj _
  rw [isFile_iff]
  exact beq_iff_eq

theorem count_filterMap_fileOf (fd : BitVec 32) (objs : List FlatBinderObject) :
    (objs.filterMap fileOf).count fd = filesOf fd objs := by
  unfold filesOf List.count
  rw [List.countP_filterMap]
  apply List.countP_congr
  intro obj _
  rw [isFile_iff]
  cases fileOf obj <;> simp

/-- Where the objects that `P` says read as they came, they are no more than came. -/
theorem countP_le_came {P : FlatBinderObject → Bool} {fd : BitVec 32}
    {objs : List FlatBinderObject} {came : List (Option (BitVec 32))}
    (hlength : came.length = objs.length)
    (hcame : ∀ e ∈ objs.zip came, P e.1 = true → e.2 = some fd) :
    objs.countP P ≤ came.count (some fd) := by
  induction objs generalizing came with
  | nil => exact Nat.zero_le _
  | cons obj objs ih =>
    cases came with
    | nil => cases hlength
    | cons first came =>
      have hrest := ih (Nat.succ.inj hlength) fun e hmem =>
        hcame e (List.mem_cons_of_mem _ hmem)
      have hfirst : P obj = true → first = some fd := hcame (obj, first) List.mem_cons_self
      rw [List.countP_cons, List.count_cons]
      split
      · rename_i hP
        rw [hfirst hP, beq_self_eq_true, if_pos rfl]
        omega
      · omega

/-! ## What closes nothing -/

section

variable {W α : Type}

/-- The files that were closed, beside the rest of the process. -/
abbrev Logged (W : Type) := W × List (BitVec 32)

/-- What closes no file of the parcel. -/
def elsewhere (m : Prog W Fault α) : Prog (Logged W) Fault α :=
  zoom Prod.fst (fun w t => (w, t.2)) m

/-- The functions outside, with a list of the files that were closed. -/
def logged (x : Calls W) : Calls (Logged W) where
  incStrong a := elsewhere (x.incStrong a)
  decStrong a := elsewhere (x.decStrong a)
  getStrongProxyForHandle h := elsewhere (x.getStrongProxyForHandle h)
  close fd := do
    modify fun t => (t.1, t.2 ++ [fd])
    elsewhere (x.close fd)
  freeBuffer address := elsewhere (x.freeBuffer address)
  thread t := x.thread t.1
  putThread s t := (x.putThread s t.1, t.2)
  backgroundSchedulingDisabled := elsewhere x.backgroundSchedulingDisabled
  getInterfaceDescriptor a := elsewhere (x.getInterfaceDescriptor a)
  localBinder a := elsewhere (x.localBinder a)
  remoteBinder a := elsewhere (x.remoteBinder a)
  mStability a := elsewhere (x.mStability a)
  putStability a level := elsewhere (x.putStability a level)
  setParceled a := elsewhere (x.setParceled a)
  getMinSchedulerPolicy a := elsewhere (x.getMinSchedulerPolicy a)
  getMinSchedulerPriority a := elsewhere (x.getMinSchedulerPriority a)
  isRequestingSid a := elsewhere (x.isRequestingSid a)
  isInheritRt a := elsewhere (x.isInheritRt a)
  getWeakRefs a := elsewhere (x.getWeakRefs a)
  incStrongRequireStrong a := elsewhere (x.incStrongRequireStrong a)
  binderHandle a := elsewhere (x.binderHandle a)

variable {x : Calls W} {c c' c'' : Ctx (Logged W)}

/-- No file is closed. -/
def SameLog (w w' : Logged W) : Prop := w'.2 = w.2

theorem sameLog_frame : Frame (SameLog (W := W)) fun _ (_ : Fault) => True where
  refl _ := rfl
  trans h h' := h'.trans h
  stops _ _ := trivial

theorem elsewhere.keeps (m : Prog W Fault α) : Keeps SameLog (fun _ _ => True) (elsewhere m) := by
  intro w
  unfold elsewhere
  rw [wp_zoom]
  exact wp_of_all (fun _ _ => rfl) fun _ => trivial

/-- The parcel stays over its data, or over its buffer of the driver, and no file is closed. -/
structure NoneClosed (c c' : Ctx (Logged W)) : Prop where
  owner : c'.parcel.mOwner = c.parcel.mOwner
  log : ∀ fd, c'.world.2.count fd = c.world.2.count fd

theorem noneClosed_frame : Frame (NoneClosed (W := W)) fun _ (_ : Fault) => True where
  refl _ := ⟨rfl, fun _ => rfl⟩
  trans h h' := ⟨h'.owner.trans h.owner, fun fd => (h'.log fd).trans (h.log fd)⟩
  stops _ _ := trivial

abbrev KeepsNoneClosed (m : Prog (Ctx (Logged W)) Fault α) : Prop :=
  Keeps NoneClosed (fun _ _ => True) m

theorem outside.noneClosed {m : Prog (Logged W) Fault α} (h : Keeps SameLog (fun _ _ => True) m) :
    KeepsNoneClosed (outside m) := by
  intro c
  apply wp_imp (wp_outside_keeps h)
  rintro _ c' ⟨hlog, hparcel⟩
  exact ⟨by rw [hparcel], fun fd => by rw [hlog]⟩

theorem update.noneClosed {f : Parcel → Parcel} (h : ∀ p, (f p).mOwner = p.mOwner) :
    KeepsNoneClosed (W := W) (update f) := fun c => ⟨h c.parcel, fun _ => rfl⟩

theorem storeData.noneClosed {pos : Nat} {bs : List UInt8} :
    KeepsNoneClosed (W := W) (storeData pos bs) := by
  apply Keeps.of_result
  · intro c _ c' hrun
    unfold storeData at hrun
    split at hrun
    · split at hrun <;> cases hrun
      exact ⟨rfl, fun _ => rfl⟩
    · split at hrun <;> cases hrun
      exact ⟨rfl, fun _ => rfl⟩
  · exact fun _ _ _ => trivial

theorem storeObject.noneClosed {i o : Nat} : KeepsNoneClosed (W := W) (storeObject i o) := by
  apply Keeps.of_result
  · intro c _ c' hrun
    unfold storeObject at hrun
    split at hrun
    · cases hrun
    · split at hrun <;> cases hrun
      exact ⟨rfl, fun _ => rfl⟩
  · exact fun _ _ _ => trivial

theorem loadData.noneClosed {pos n : Nat} : KeepsNoneClosed (W := W) (loadData pos n) := by
  intro c
  apply wp_imp loadData.keeps
  rintro _ _ rfl
  exact ⟨rfl, fun _ => rfl⟩

theorem allocate.noneClosed {β : Type} {make : (Nat → Nat) → List β} :
    KeepsNoneClosed (W := W) (allocate make) := fun _ => ⟨rfl, fun _ => rfl⟩

theorem thisParcel.noneClosed : KeepsNoneClosed (W := W) thisParcel :=
  fun _ => ⟨rfl, fun _ => rfl⟩

theorem finishWrite.noneClosed {len : Nat} : KeepsNoneClosed (W := W) (finishWrite len) := by
  unfold finishWrite
  exact Keeps.ite (noneClosed_frame.pure _)
    (noneClosed_frame.bind (update.noneClosed fun _ => rfl) fun _ => noneClosed_frame.pure _)

theorem storeAligned.noneClosed {bs : List UInt8} : KeepsNoneClosed (W := W) (storeAligned bs) := by
  unfold storeAligned
  exact noneClosed_frame.bind thisParcel.noneClosed fun _ =>
    noneClosed_frame.bind storeData.noneClosed fun _ => finishWrite.noneClosed

theorem claimInplace.noneClosed {len : Nat} : KeepsNoneClosed (W := W) (claimInplace len) := by
  have hclaim : ∀ (padded : Nat) (place : Option Nat), KeepsNoneClosed (W := W) (do
      let _ ← finishWrite padded
      pure place) := fun _ _ =>
    noneClosed_frame.bind finishWrite.noneClosed fun _ => noneClosed_frame.pure _
  unfold claimInplace
  refine noneClosed_frame.bind thisParcel.noneClosed fun p => Keeps.ite ?_ (hclaim _ _)
  exact noneClosed_frame.bind loadData.noneClosed fun _ =>
    noneClosed_frame.bind storeData.noneClosed fun _ => hclaim _ _

theorem acquire_object.sameLog (obj : FlatBinderObject) :
    Keeps SameLog (fun _ _ => True) (acquire_object (logged x).toOutside obj) := by
  unfold acquire_object
  refine Keeps.ite (Keeps.ite (elsewhere.keeps _) (sameLog_frame.pure _)) (Keeps.ite ?_
    (sameLog_frame.pure _))
  exact sameLog_frame.bind (elsewhere.keeps _) fun _ =>
    Keeps.ite (elsewhere.keeps _) (sameLog_frame.pure _)

theorem listFlat.noneClosed {val : FlatBinderObject} {nullMetaData : Bool} :
    KeepsNoneClosed (listFlat (logged x).toOutside val nullMetaData) := by
  unfold listFlat
  refine Keeps.ite ?_ finishWrite.noneClosed
  exact noneClosed_frame.bind thisParcel.noneClosed fun _ =>
    noneClosed_frame.bind storeObject.noneClosed fun _ =>
    noneClosed_frame.bind (outside.noneClosed (acquire_object.sameLog val)) fun _ =>
    noneClosed_frame.bind (update.noneClosed fun _ => rfl) fun _ => finishWrite.noneClosed

theorem storeFlat.noneClosed {val : FlatBinderObject} {nullMetaData : Bool} :
    KeepsNoneClosed (storeFlat (logged x).toOutside val nullMetaData) := by
  unfold storeFlat
  refine noneClosed_frame.bind thisParcel.noneClosed fun p =>
    noneClosed_frame.bind storeData.noneClosed fun _ => Keeps.ite ?_ listFlat.noneClosed
  exact Keeps.ite (noneClosed_frame.pure _)
    (noneClosed_frame.bind (update.noneClosed fun _ => rfl) fun _ => listFlat.noneClosed)

theorem growObjects.noneClosed : KeepsNoneClosed (W := W) growObjects := by
  unfold growObjects
  refine noneClosed_frame.bind thisParcel.noneClosed fun p => Keeps.ite (noneClosed_frame.pure _)
    (Keeps.ite (noneClosed_frame.pure _) (Keeps.ite (noneClosed_frame.pure _) ?_))
  refine noneClosed_frame.bind allocate.noneClosed fun table => ?_
  cases table with
  | none => exact noneClosed_frame.pure _
  | some objects =>
    exact noneClosed_frame.bind (update.noneClosed fun _ => rfl) fun _ => noneClosed_frame.pure _

theorem listWithRoom.noneClosed {enoughObjects : Bool} {val : FlatBinderObject}
    {nullMetaData : Bool} :
    KeepsNoneClosed (listWithRoom (logged x).toOutside enoughObjects val nullMetaData) := by
  unfold listWithRoom
  refine Keeps.ite storeFlat.noneClosed (noneClosed_frame.bind growObjects.noneClosed fun _ => ?_)
  exact Keeps.ite storeFlat.noneClosed (noneClosed_frame.pure _)

/-! ## What closes files -/

/-- As many files were closed as `n` says. -/
def Closed (n : BitVec 32 → Nat) (w w' : Logged W) : Prop :=
  ∀ fd, w'.2.count fd = w.2.count fd + n fd

theorem SameLog.closed {w w' : Logged W} (h : SameLog w w') : Closed (fun _ => 0) w w' := by
  intro fd
  rw [h]
  rfl

theorem close.closes (fd : BitVec 32) (w : Logged W) :
    wp ((logged x).close fd) (fun _ w' => w'.2 = w.2 ++ [fd]) (fun _ => True) w := by
  show wp (modify _ >>= fun _ => elsewhere (x.close fd)) _ _ w
  rw [wp_bind, wp_modify]
  exact elsewhere.keeps _ _

theorem release_object.closes (obj : FlatBinderObject) (w : Logged W) :
    wp (release_object (logged x).toOutside obj)
      (fun _ => Closed (fun fd => ownedFilesOf fd [obj]) w) (fun _ => True) w := by
  have hnothing : ∀ w' : Logged W, SameLog w w' → (obj.type = BINDER_TYPE_FD → obj.cookie = 0) →
      Closed (fun fd => ownedFilesOf fd [obj]) w w' := by
    intro w' hsame hno fd
    have hnone : NoneOwned [obj] := fun _ hmem => by
      rw [List.mem_singleton.mp hmem]
      exact hno
    exact (hsame.closed fd).trans (congrArg _ (hnone.ownedFilesOf fd).symm)
  have hbinder : BINDER_TYPE_BINDER ≠ BINDER_TYPE_FD := by decide
  have hhandle : BINDER_TYPE_HANDLE ≠ BINDER_TYPE_FD := by decide
  unfold release_object
  split
  · rename_i htype
    have hno : obj.type ≠ BINDER_TYPE_FD := htype ▸ hbinder
    have hkeeps : Keeps SameLog (fun _ _ => True) (if obj.binder ≠ 0
        then (logged x).decStrong obj.cookie else pure ()) :=
      Keeps.ite (elsewhere.keeps _) (sameLog_frame.pure _)
    exact wp_imp (hkeeps w) fun _ w' hsame => hnothing w' hsame fun h => absurd h hno
  · split
    · rename_i htype
      have hno : obj.type ≠ BINDER_TYPE_FD := htype ▸ hhandle
      have hkeeps := sameLog_frame.bind (elsewhere.keeps (x.getStrongProxyForHandle obj.handle))
        fun ibinder => Keeps.ite (c := ibinder ≠ 0) (elsewhere.keeps (x.decStrong ibinder))
          (sameLog_frame.pure ())
      exact wp_imp (hkeeps w) fun _ w' hsame => hnothing w' hsame fun h => absurd h hno
    · split
      · rename_i htype
        split
        · rename_i hcookie
          apply wp_imp (close.closes obj.handle w)
          intro _ w' hlog fd
          have howned : (obj.cookie != 0) = true := bne_iff_ne.mpr hcookie
          rw [hlog, List.count_append, List.count_singleton]
          simp only [ownedFilesOf, IsOwnedFile, IsFile, List.countP_singleton, htype, howned,
            beq_self_eq_true, Bool.true_and, Bool.and_true]
        · rename_i hcookie
          exact hnothing w rfl fun _ => not_not.mp hcookie
      · rename_i htype
        exact hnothing w rfl fun h => absurd h htype

theorem close.closes_file {obj : FlatBinderObject} (htype : obj.type = BINDER_TYPE_FD)
    (w : Logged W) : wp ((logged x).close obj.handle)
      (fun _ => Closed (fun fd => filesOf fd [obj]) w) (fun _ => True) w := by
  apply wp_imp (close.closes obj.handle w)
  intro _ w' hlog fd
  rw [hlog, List.count_append, List.count_singleton]
  simp only [filesOf, IsFile, List.countP_singleton, htype, beq_self_eq_true, Bool.true_and]

/-- The objects that the first `n` entries of the table say. -/
def firstObjects (p : Parcel) (n : Nat) : List FlatBinderObject := (p.table.take n).map p.flatAt

theorem firstObjects_succ {p : Parcel} {n o : Nat} (ho : p.table[n]? = some o) :
    firstObjects p (n + 1) = firstObjects p n ++ [p.flatAt o] := by
  unfold firstObjects
  rw [List.take_add_one, ho, List.map_append]
  rfl

theorem filesOf_succ {p : Parcel} {n o : Nat} (fd : BitVec 32) (ho : p.table[n]? = some o) :
    filesOf fd (firstObjects p (n + 1)) =
      filesOf fd (firstObjects p n) + filesOf fd [p.flatAt o] := by
  rw [firstObjects_succ ho]
  exact List.countP_append

theorem ownedFilesOf_succ {p : Parcel} {n o : Nat} (fd : BitVec 32) (ho : p.table[n]? = some o) :
    ownedFilesOf fd (firstObjects p (n + 1)) =
      ownedFilesOf fd (firstObjects p n) + ownedFilesOf fd [p.flatAt o] := by
  rw [firstObjects_succ ho]
  exact List.countP_append

theorem loadFlat.reads {i : Nat} : wp (loadFlat i) (fun flat c' => c' = c ∧
    ∃ o, c.parcel.table[i]? = some o ∧ flat = c.parcel.flatAt o) (fun _ => True) c := by
  unfold loadFlat
  rw [wp_bind]
  apply wp_loadObject_table
  intro o ho
  rw [wp_bind]
  by_cases hin : o + FLAT_SIZE ≤ c.parcel.cells.length
  · rw [wp_loadData hin]
    exact ⟨rfl, o, ho, rfl⟩
  · unfold Parcel.cells at hin
    unfold wp loadData
    cases hdata : c.parcel.mData with
    | none => trivial
    | some b =>
      rw [hdata] at hin
      simp only [Option.map_some, Option.getD_some] at hin
      simp only [if_neg hin]

/-- All files are closed. -/
theorem closeDown.closes (n : Nat) : wp (closeDown (logged x).toOutside n) (fun _ c' =>
    c'.parcel = c.parcel ∧
      Closed (fun fd => filesOf fd (firstObjects c.parcel n)) c.world c'.world)
    (fun _ => True) c := by
  induction n generalizing c with
  | zero => exact ⟨rfl, fun _ => rfl⟩
  | succ n ih =>
    unfold closeDown
    rw [wp_bind]
    apply wp_imp loadFlat.reads
    rintro flat c₁ ⟨rfl, o, ho, rfl⟩
    have hrest : ∀ w₂, Closed (fun fd => filesOf fd [c₁.parcel.flatAt o]) c₁.world w₂ →
        wp (closeDown (logged x).toOutside n) (fun _ c' => c'.parcel = c₁.parcel ∧
          Closed (fun fd => filesOf fd (firstObjects c₁.parcel (n + 1))) c₁.world c'.world)
          (fun _ => True) (c₁.setWorld w₂) := by
      intro w₂ hclosed₂
      apply wp_imp ih
      rintro _ c₃ ⟨hparcel₃, hclosed₃⟩
      refine ⟨hparcel₃, fun fd => ?_⟩
      have hone : w₂.2.count fd = c₁.world.2.count fd + filesOf fd [c₁.parcel.flatAt o] :=
        hclosed₂ fd
      have hlast : c₃.world.2.count fd = w₂.2.count fd + filesOf fd (firstObjects c₁.parcel n) :=
        hclosed₃ fd
      have hsum := filesOf_succ fd ho
      dsimp only
      omega
    dsimp only
    split
    · rename_i htype
      rw [wp_bind, wp_outside]
      exact wp_imp (close.closes_file htype _) fun _ w₂ hclosed₂ => hrest w₂ hclosed₂
    · rename_i htype
      exact hrest c₁.world fun fd => by simp [filesOf, IsFile, htype]

/-- The files that are owned are closed. -/
theorem releaseDown.closes (n : Nat) : wp (releaseDown (logged x).toOutside n) (fun _ c' =>
    c'.parcel = c.parcel ∧
      Closed (fun fd => ownedFilesOf fd (firstObjects c.parcel n)) c.world c'.world)
    (fun _ => True) c := by
  induction n generalizing c with
  | zero => exact ⟨rfl, fun _ => rfl⟩
  | succ n ih =>
    unfold releaseDown
    rw [wp_bind]
    apply wp_imp loadFlat.reads
    rintro flat c₁ ⟨rfl, o, ho, rfl⟩
    rw [wp_bind, wp_outside]
    apply wp_imp (release_object.closes _ _)
    intro _ w₂ hclosed₂
    apply wp_imp ih
    rintro _ c₃ ⟨hparcel₃, hclosed₃⟩
    refine ⟨hparcel₃, fun fd => ?_⟩
    have hone : w₂.2.count fd = c₁.world.2.count fd + ownedFilesOf fd [c₁.parcel.flatAt o] :=
      hclosed₂ fd
    have hlast : c₃.world.2.count fd = w₂.2.count fd + ownedFilesOf fd (firstObjects c₁.parcel n) :=
      hclosed₃ fd
    have hsum := ownedFilesOf_succ fd ho
    dsimp only
    omega

/-- So are those from one on that are dropped. -/
theorem releaseUp.closes {i : Nat} (n : Nat) :
    wp (releaseUp (logged x).toOutside i n) (fun _ c' => ∃ fds,
      c'.parcel = { c.parcel with mFdsKnown := fds } ∧
      ∀ fd, c'.world.2.count fd + ownedFilesOf fd (firstObjects c.parcel i) =
        c.world.2.count fd + ownedFilesOf fd (firstObjects c.parcel (i + n)))
      (fun _ => True) c := by
  induction n generalizing c i with
  | zero => exact ⟨_, rfl, fun _ => rfl⟩
  | succ n ih =>
    unfold releaseUp
    rw [wp_bind]
    apply wp_imp loadFlat.reads
    rintro flat c₁ ⟨rfl, o, ho, rfl⟩
    have hrest : ∀ fds : Bool, wp (do
        outside (release_object (logged x).toOutside (c₁.parcel.flatAt o))
        releaseUp (logged x).toOutside (i + 1) n) (fun _ c' => ∃ fds,
          c'.parcel = { c₁.parcel with mFdsKnown := fds } ∧
          ∀ fd, c'.world.2.count fd + ownedFilesOf fd (firstObjects c₁.parcel i) =
            c₁.world.2.count fd + ownedFilesOf fd (firstObjects c₁.parcel (i + (n + 1))))
        (fun _ => True) (c₁.mapParcel fun p => { p with mFdsKnown := fds }) := by
      intro fds
      rw [wp_bind, wp_outside]
      apply wp_imp (release_object.closes _ _)
      intro _ w₂ hclosed₂
      apply wp_imp ih
      rintro _ c₃ ⟨fds₃, hparcel₃, hclosed₃⟩
      refine ⟨fds₃, hparcel₃, fun fd => ?_⟩
      have hone := hclosed₂ fd
      have hlast := hclosed₃ fd
      have hsum := ownedFilesOf_succ fd ho
      have hsame : ∀ k, firstObjects ((c₁.mapParcel fun p => { p with mFdsKnown := fds }).setWorld
          w₂).parcel k = firstObjects c₁.parcel k := fun _ => rfl
      simp only [hsame, Ctx.world_setWorld, Ctx.world_mapParcel] at hlast hone
      rw [show i + (n + 1) = i + 1 + n by omega]
      omega
    split
    · rw [wp_bind, wp_update]
      exact hrest false
    · exact hrest c₁.parcel.mFdsKnown

theorem acquireDown.keeps (n : Nat) : wp (acquireDown (logged x).toOutside n) (fun _ c' =>
    c'.parcel = c.parcel ∧ SameLog c.world c'.world) (fun _ => True) c := by
  induction n generalizing c with
  | zero => exact ⟨rfl, rfl⟩
  | succ n ih =>
    unfold acquireDown
    rw [wp_bind]
    apply wp_imp loadFlat.keeps
    rintro flat c₁ rfl
    rw [wp_bind]
    apply wp_imp (wp_outside_keeps (acquire_object.sameLog flat))
    rintro _ c₂ ⟨hsame₂, hparcel₂⟩
    apply wp_imp ih
    rintro _ c₃ ⟨hparcel₃, hsame₃⟩
    exact ⟨hparcel₃.trans hparcel₂, hsame₃.trans hsame₂⟩

/-! ### The size of the buffer -/

/-- The parcel has memory of its own, and all files that it would have closed were closed. -/
structure ClosedAll (c c' : Ctx (Logged W)) : Prop where
  owner : c'.parcel.mOwner = none
  log : Closed (toClose c.parcel) c.world c'.world

/-- Nothing came of a growth. -/
structure Declined (c c' : Ctx (Logged W)) : Prop where
  noneClosed : NoneClosed c c'
  data : c'.parcel.mData = c.parcel.mData
  objects : c'.parcel.mObjects = c.parcel.mObjects
  objectsSize : c'.parcel.mObjectsSize = c.parcel.mObjectsSize
  pos : c'.parcel.mDataPos = c.parcel.mDataPos
  capacity : c'.parcel.mDataCapacity = c.parcel.mDataCapacity

theorem callOwner.closes {relFunc : ReleaseFunc} :
    wp (callOwner (logged x).toOutside relFunc) (fun _ c' => c'.parcel = c.parcel ∧
      Closed (fun fd => filesOf fd (listedObjects c.parcel)) c.world c'.world)
      (fun _ => True) c := by
  cases relFunc
  unfold callOwner closeFileDescriptors
  simp only [wp_bind, wp_thisParcel]
  apply wp_imp (closeDown.closes c.parcel.mObjectsSize)
  rintro _ c₁ ⟨hparcel₁, hclosed₁⟩
  apply wp_imp (wp_outside_keeps (elsewhere.keeps (x.freeBuffer _)))
  rintro _ c₂ ⟨hsame₂, hparcel₂⟩
  refine ⟨hparcel₂.trans hparcel₁, fun fd => ?_⟩
  rw [hsame₂]
  exact hclosed₁ fd

theorem toClose_own {p : Parcel} (h : p.mOwner = none) (fd : BitVec 32) :
    toClose p fd = ownedFilesOf fd (listedObjects p) := if_pos h

theorem toClose_lent {p : Parcel} {relFunc : ReleaseFunc} (h : p.mOwner = some relFunc)
    (fd : BitVec 32) : toClose p fd = filesOf fd (listedObjects p) :=
  if_neg (by rw [h]; exact Option.some_ne_none _)

theorem freeData.closes : wp (freeData (logged x).toOutside) (fun _ c' => c'.parcel = empty ∧
    ClosedAll c c') (fun _ => True) c := by
  have hdata : wp (freeDataNoInit (logged x).toOutside)
      (fun _ c' => Closed (toClose c.parcel) c.world c'.world) (fun _ => True) c := by
    unfold freeDataNoInit
    rw [wp_bind, wp_thisParcel]
    split
    · rename_i relFunc howner
      apply wp_imp callOwner.closes
      rintro _ c₁ ⟨-, hclosed⟩ fd
      rw [hclosed fd, toClose_lent howner]
    · rename_i howner
      unfold releaseObjects
      simp only [wp_bind, wp_thisParcel]
      apply wp_imp (releaseDown.closes c.parcel.mObjectsSize)
      rintro _ c₁ ⟨-, hclosed⟩
      apply wp_imp freeOwnData.keeps
      intro _ c₂ hworld₂
      apply wp_imp freeOwnObjects.keeps
      intro _ c₃ hworld₃ fd
      rw [hworld₃, hworld₂, hclosed fd, toClose_own howner]
      rfl
  unfold freeData initState
  rw [wp_bind]
  apply wp_imp hdata
  intro _ c₁ hclosed
  exact ⟨rfl, rfl, hclosed⟩

theorem takePossession.closes {relFunc : ReleaseFunc} {desired k : Nat} {data : Block UInt8}
    {objects : Option (Block Nat)} (howner : c.parcel.mOwner = some relFunc) :
    wp (takePossession (logged x).toOutside desired k data objects) (fun r c' => r = STATUS_OK ∧
      ClosedAll c c' ∧ c'.parcel.mObjectsSize = k) (fun _ => True) c := by
  have hrest : ∀ (offsets : List Nat) (bytes : List UInt8), wp (do
      callOwner (logged x).toOutside relFunc
      updateHeap (Heap.addSize desired)
      updateHeap Heap.incCount
      update (fun p => { p with
        mOwner := none
        mData := some { data with cells := overlay data.cells 0 bytes }
        mObjects := objects.map fun t => { t with cells := overlay t.cells 0 offsets }
        mDataSize := min p.mDataSize desired
        mDataCapacity := desired
        mObjectsSize := k
        mObjectsCapacity := k
        mNextObjectHint := 0
        mObjectsSorted := false })
      pure STATUS_OK) (fun r c' => r = STATUS_OK ∧ ClosedAll c c' ∧ c'.parcel.mObjectsSize = k)
      (fun _ => True) c := by
    intro offsets bytes
    rw [wp_bind]
    apply wp_imp callOwner.closes
    rintro _ c₁ ⟨-, hclosed⟩
    refine ⟨rfl, ⟨rfl, fun fd => ?_⟩, rfl⟩
    exact (hclosed fd).trans (by rw [toClose_lent howner])
  unfold takePossession
  simp only [wp_bind, wp_thisParcel, howner]
  split
  · rw [wp_bind]
    apply wp_imp loadData.keeps
    rintro bytes c₁ rfl
    exact hrest _ bytes
  · exact hrest _ []

theorem failWith.declines {err : Int} (d : Declined c c') :
    wp (failWith err) (fun r c'' => r = err ∧ Declined c c'') (fun _ => True) c' :=
  ⟨rfl, ⟨d.noneClosed.owner, d.noneClosed.log⟩, d.data, d.objects, d.objectsSize, d.pos, d.capacity⟩

theorem Declined.same (hparcel : c'.parcel = c.parcel) (hlog : SameLog c.world c'.world) :
    Declined c c' := by
  refine ⟨⟨?_, fun fd => by rw [hlog]⟩, ?_, ?_, ?_, ?_, ?_⟩ <;> rw [hparcel]

/-- A parcel over a buffer of the driver takes a copy, and all files of the buffer are closed, or it
does not. -/
theorem continueOwned.closes {relFunc : ReleaseFunc} {desired k : Nat}
    (howner : c.parcel.mOwner = some relFunc) :
    wp (continueOwned (logged x).toOutside desired k) (fun r c' =>
      r ≠ STATUS_OK ∧ Declined c c' ∨
        r = STATUS_OK ∧ ClosedAll c c' ∧ c'.parcel.mObjectsSize ≤ k) (fun _ => True) c := by
  have hmemory : STATUS_NO_MEMORY ≠ STATUS_OK := by decide
  have hrefused : ∀ c₁ : Ctx (Logged W), Declined c c₁ →
      wp (failWith STATUS_NO_MEMORY) (fun r c' => r ≠ STATUS_OK ∧ Declined c c' ∨
        r = STATUS_OK ∧ ClosedAll c c' ∧ c'.parcel.mObjectsSize ≤ k) (fun _ => True) c₁ := by
    intro c₁ d
    apply wp_imp (failWith.declines d)
    rintro _ c₂ ⟨rfl, hdeclined⟩
    exact .inl ⟨hmemory, hdeclined⟩
  have htaken : ∀ {c₁ : Ctx (Logged W)} {data : Block UInt8} {objects : Option (Block Nat)},
      c₁.parcel = c.parcel → SameLog c.world c₁.world →
      wp (takePossession (logged x).toOutside desired k data objects) (fun r c' =>
        r ≠ STATUS_OK ∧ Declined c c' ∨
          r = STATUS_OK ∧ ClosedAll c c' ∧ c'.parcel.mObjectsSize ≤ k) (fun _ => True) c₁ := by
    intro c₁ data objects hparcel hsame
    apply wp_imp (takePossession.closes (hparcel ▸ howner))
    rintro _ c₂ ⟨rfl, hclosed, hsize⟩
    refine .inr ⟨rfl, ⟨hclosed.owner, fun fd => ?_⟩, Nat.le_of_eq hsize⟩
    rw [hclosed.log fd, hparcel, hsame]
  unfold continueOwned
  split
  · rw [wp_bind]
    apply wp_imp freeData.closes
    rintro _ c₁ ⟨hempty, hclosed⟩
    refine .inr ⟨rfl, hclosed, ?_⟩
    rw [hempty]
    exact Nat.zero_le _
  · unfold malloc callocObjects
    rw [wp_bind, wp_allocate]
    cases c.heap.fresh c.heap.requests with
    | none => exact hrefused _ (.same rfl rfl)
    | some g =>
      simp only [Option.map_some]
      split
      · exact htaken rfl rfl
      · rw [wp_bind, wp_allocate]
        split
        · rw [wp_bind, wp_updateHeap]
          exact hrefused _ (.same rfl rfl)
        · simp only [wp_bind, wp_thisParcel, wp_update]
          unfold acquireObjects
          simp only [wp_bind, wp_thisParcel]
          apply wp_imp (acquireDown.keeps k)
          rintro _ c₁ ⟨hparcel₁, hsame₁⟩
          refine htaken ?_ hsame₁
          rw [Ctx.parcel_mapParcel, hparcel₁]
          rfl

/-! ### Memory of its own -/

theorem keptObjects.counts {desired n : Nat} : wp (keptObjects desired n)
    (fun k c' => k = keptBelow c.parcel.table desired n ∧ c' = c) (fun _ => True) c := by
  induction n with
  | zero => exact ⟨rfl, rfl⟩
  | succ n ih =>
    unfold keptObjects keptBelow
    rw [wp_bind]
    apply wp_loadObject_table
    intro o ho
    rw [ho, Option.getD_some]
    split
    · exact ⟨rfl, rfl⟩
    · exact ih

theorem countKept.counts {desired : Nat} : wp (countKept desired)
    (fun k c' => k = kept c.parcel desired ∧ c' = c) (fun _ => True) c := by
  unfold countKept kept
  rw [wp_bind, wp_thisParcel]
  split
  · split
    · exact ⟨rfl, rfl⟩
    · exact keptObjects.counts
  · exact ⟨rfl, rfl⟩

theorem reallocZeroFree.keeps {data : Block UInt8} {oldCapacity newCapacity : Nat} {zero : Bool} :
    wp (reallocZeroFree data oldCapacity newCapacity zero)
      (fun _ c' => c'.parcel = c.parcel ∧ c'.world = c.world) (fun _ => True) c := by
  unfold reallocZeroFree
  split
  · rw [wp_bind, wp_allocate]
    split
    · exact ⟨rfl, rfl⟩
    · split
      · trivial
      · exact ⟨rfl, rfl⟩
  · rw [wp_bind, wp_allocate]
    split
    · exact ⟨rfl, rfl⟩
    · exact ⟨rfl, rfl⟩

theorem resizeOwn.noneClosed {desired : Nat} {data : Block UInt8} :
    wp (resizeOwn desired data) (fun _ c' => NoneClosed c c' ∧
      c'.parcel.mObjectsSize = c.parcel.mObjectsSize) (fun _ => True) c := by
  unfold resizeOwn
  rw [wp_bind, wp_thisParcel]
  split
  · rw [wp_bind]
    apply wp_imp reallocZeroFree.keeps
    rintro grown c₁ ⟨hparcel, hworld⟩
    have hsame : NoneClosed c c₁ ∧ c₁.parcel.mObjectsSize = c.parcel.mObjectsSize :=
      ⟨⟨by rw [hparcel], fun fd => by rw [hworld]⟩, by rw [hparcel]⟩
    cases grown with
    | none => exact ⟨⟨hsame.1.owner, hsame.1.log⟩, hsame.2⟩
    | some block => exact ⟨⟨hsame.1.owner, hsame.1.log⟩, hsame.2⟩
  · exact ⟨⟨rfl, fun _ => rfl⟩, rfl⟩

theorem dropObjects.closes {k : Nat} (hk : k ≤ c.parcel.mObjectsSize) :
    wp (dropObjects (logged x).toOutside k) (fun _ c' => c'.parcel.mOwner = c.parcel.mOwner ∧
      c'.parcel.mObjectsSize = k ∧ ∀ fd,
        c'.world.2.count fd + ownedFilesOf fd (firstObjects c.parcel k) =
          c.world.2.count fd + ownedFilesOf fd (listedObjects c.parcel)) (fun _ => True) c := by
  unfold dropObjects
  rw [wp_bind, wp_thisParcel, wp_bind]
  apply wp_imp (releaseUp.closes (c.parcel.mObjectsSize - k))
  rintro _ c₁ ⟨fds, hparcel, hclosed⟩
  have howner : c₁.parcel.mOwner = c.parcel.mOwner := by rw [hparcel]
  have hlog : ∀ fd, c₁.world.2.count fd + ownedFilesOf fd (firstObjects c.parcel k) =
      c.world.2.count fd + ownedFilesOf fd (listedObjects c.parcel) := by
    intro fd
    have := hclosed fd
    rwa [show k + (c.parcel.mObjectsSize - k) = c.parcel.mObjectsSize by omega] at this
  split
  · exact ⟨howner, rfl, hlog⟩
  · unfold reallocObjects
    simp only [wp_bind, wp_allocate]
    split
    · exact ⟨howner, rfl, hlog⟩
    · exact ⟨howner, rfl, hlog⟩

/-- A parcel with memory of its own closes the files that it owns among the objects it drops. It
drops none where it grows. -/
theorem continueWrite.own {desired : Nat} (howner : c.parcel.mOwner = none) :
    wp (continueWrite (logged x).toOutside desired) (fun _ c' => c'.parcel.mOwner = none ∧
      ∃ k, c'.parcel.mObjectsSize ≤ k ∧ kept c.parcel desired ≤ k ∧ k ≤ c.parcel.mObjectsSize ∧
        (c.parcel.mDataSize ≤ desired → k = c.parcel.mObjectsSize) ∧
        ∀ fd, c'.world.2.count fd + ownedFilesOf fd (firstObjects c.parcel k) =
          c.world.2.count fd + ownedFilesOf fd (listedObjects c.parcel)) (fun _ => True) c := by
  unfold continueWrite
  split
  · exact ⟨howner, _, Nat.le_refl _, kept_le _ _, Nat.le_refl _, fun _ => rfl, fun _ => rfl⟩
  · rw [wp_bind, wp_thisParcel, wp_bind]
    apply wp_imp countKept.counts
    rintro k c ⟨hkept, rfl⟩
    have hfew : k ≤ c.parcel.mObjectsSize := hkept ▸ kept_le c.parcel desired
    have hall : c.parcel.mDataSize ≤ desired → k = c.parcel.mObjectsSize := by
      intro hgrown
      rw [hkept]
      unfold kept
      rw [if_neg (by omega)]
    rw [if_neg (by rw [howner]; exact Bool.false_ne_true)]
    cases hdata : c.parcel.mData with
    | none =>
      unfold firstData malloc
      simp only [wp_bind, wp_allocate]
      split
      · exact ⟨howner, _, Nat.le_refl _, kept_le _ _, Nat.le_refl _, fun _ => rfl, fun _ => rfl⟩
      · exact ⟨howner, _, Nat.le_refl _, kept_le _ _, Nat.le_refl _, fun _ => rfl, fun _ => rfl⟩
    | some data =>
      dsimp only
      split
      · rw [wp_bind]
        apply wp_imp (dropObjects.closes hfew)
        rintro _ c₁ ⟨howner₁, hsize₁, hlog₁⟩
        apply wp_imp resizeOwn.noneClosed
        rintro _ c₂ ⟨hsame, hsize₂⟩
        refine ⟨hsame.owner.trans (howner₁.trans howner), k, Nat.le_of_eq (hsize₂.trans hsize₁),
          Nat.le_of_eq hkept.symm, hfew, hall, fun fd => ?_⟩
        rw [hsame.log fd]
        exact hlog₁ fd
      · apply wp_imp resizeOwn.noneClosed
        rintro _ c₂ ⟨hsame, hsize₂⟩
        refine ⟨hsame.owner.trans howner, _, Nat.le_of_eq hsize₂, kept_le _ _, Nat.le_refl _,
          fun _ => rfl, fun fd => ?_⟩
        rw [hsame.log fd]
        rfl

theorem continueWrite.lent {relFunc : ReleaseFunc} {desired : Nat}
    (howner : c.parcel.mOwner = some relFunc) :
    wp (continueWrite (logged x).toOutside desired) (fun r c' =>
      r ≠ STATUS_OK ∧ Declined c c' ∨
        r = STATUS_OK ∧ ClosedAll c c' ∧ c'.parcel.mObjectsSize ≤ kept c.parcel desired)
      (fun _ => True) c := by
  unfold continueWrite
  split
  · exact .inl ⟨by decide, .same rfl rfl⟩
  · rw [wp_bind, wp_thisParcel, wp_bind]
    apply wp_imp countKept.counts
    rintro k _ ⟨rfl, rfl⟩
    rw [if_pos (by rw [howner]; rfl)]
    exact continueOwned.closes howner

/-- A growth closes no file of a parcel with memory of its own. -/
theorem growData.own {len : Nat} (howner : c.parcel.mOwner = none) :
    wp (growData (logged x).toOutside len) (fun _ c' => NoneClosed c c') (fun _ => True) c := by
  have hsame : NoneClosed c c := ⟨rfl, fun _ => rfl⟩
  unfold growData
  split
  · exact hsame
  · rw [wp_bind, wp_thisParcel]
    split
    · exact hsame
    · split
      · exact hsame
      · dsimp only
        split
        · exact hsame
        · apply wp_imp (continueWrite.own howner)
          rintro _ c' ⟨howner', k, -, -, -, hall, hlog⟩
          refine ⟨howner'.trans howner.symm, fun fd => ?_⟩
          have hk := hall (by omega)
          have hcount := hlog fd
          rw [hk] at hcount
          exact Nat.add_right_cancel hcount

/-- One of a parcel over a buffer of the driver closes all, or nothing came of it. -/
theorem growData.lent {relFunc : ReleaseFunc} {len : Nat}
    (howner : c.parcel.mOwner = some relFunc) :
    wp (growData (logged x).toOutside len) (fun r c' =>
      r ≠ STATUS_OK ∧ Declined c c' ∨ r = STATUS_OK ∧ ClosedAll c c') (fun _ => True) c := by
  have hrefused : ∀ r : Int, r ≠ STATUS_OK →
      wp (pure r : Prog (Ctx (Logged W)) Fault Int) (fun r c' =>
        r ≠ STATUS_OK ∧ Declined c c' ∨ r = STATUS_OK ∧ ClosedAll c c') (fun _ => True) c :=
    fun r hne => .inl ⟨hne, .same rfl rfl⟩
  unfold growData
  split
  · exact hrefused _ (by decide)
  · rw [wp_bind, wp_thisParcel]
    split
    · exact hrefused _ (by decide)
    · split
      · exact hrefused _ (by decide)
      · dsimp only
        split
        · exact hrefused _ (by decide)
        · apply wp_imp (continueWrite.lent howner)
          rintro r c' (hdeclined | ⟨hok, hclosed, -⟩)
          · exact .inl hdeclined
          · exact .inr ⟨hok, hclosed⟩

end

end system_binder.Parcel
