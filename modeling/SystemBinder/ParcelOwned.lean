-- A parcel over a buffer of the driver takes possession of a copy where it must grow: what it
-- calls on the way, and what the copy holds.
import SystemBinder.ParcelCuts

open prog memory

namespace system_binder.Parcel

variable {W : Type} {x : Outside W} {c c' : Ctx W} {E : Fault → Prop}

/-- A parcel over a buffer that the driver delivered. But for the owner it is as one that was
built locally: what it says of its memory is right. It has no room behind its data. -/
structure Borrowed (p : Parcel) : Prop where
  owner : p.mOwner = some .freeBuffer
  data : p.mData.isSome = true
  full : p.mDataCapacity = p.mDataSize
  disowned : Local { p with mOwner := none }

namespace Borrowed

variable {p : Parcel} (b : Borrowed p)

include b

theorem isSome : p.mOwner.isSome = true := by
  rw [b.owner]
  rfl

theorem pos : p.mDataPos ≤ p.mDataSize := b.disowned.pos

theorem capacity : p.mDataSize ≤ INT32_MAX := Nat.le_trans b.disowned.size b.disowned.capacity

theorem objects : p.mObjectsSize ≤ p.mObjectsCapacity := b.disowned.objects

theorem table : p.table.length = p.mObjectsCapacity := b.disowned.table

theorem offsets {i o : Nat} (hi : i < p.mObjectsSize) (ho : p.table[i]? = some o) :
    o + FLAT_SIZE ≤ p.mDataSize := b.full ▸ b.disowned.offsets i o hi ho

/-- Every listed object lies whole in the buffer. -/
theorem whole : WholeObjects p 0 p.mObjectsSize := fun j _ hj =>
  b.disowned.listed_object (i := j) (Nat.lt_of_lt_of_eq hj (Nat.zero_add _))

end Borrowed

theorem Borrowed.sound {p : Parcel} (b : Borrowed p) : Sound p where
  pos := b.pos
  size := b.disowned.size
  capacity := b.disowned.capacity
  data := b.disowned.data
  objects := b.table ▸ b.objects
  buffer := fun _ => b.data

/-! ## The loops over the objects -/

/-- Something for each of some objects, first to last. -/
def forEach (f : FlatBinderObject → Prog W Fault Unit) : List FlatBinderObject → Prog W Fault Unit
  | [] => pure ()
  | obj :: rest => do
    f obj
    forEach f rest

/-- What `Parcel_closeFileDescriptors` does with an object. -/
def closeFile (x : Outside W) (obj : FlatBinderObject) : Prog W Fault Unit :=
  if obj.type = BINDER_TYPE_FD then x.close obj.handle else pure ()

theorem releaseAll_eq_forEach (objs : List FlatBinderObject) :
    releaseAll x objs = forEach (release_object x) objs := by
  induction objs with
  | nil => rfl
  | cons obj rest ih =>
    unfold releaseAll forEach
    rw [ih]

/-- A loop that is given each object from the `n`-th last one down. -/
def Down (f : FlatBinderObject → Prog W Fault Unit) (loop : Nat → Prog (Ctx W) Fault Unit) : Prop :=
  loop 0 = pure () ∧ ∀ i, loop (i + 1) = do
    let flat ← loadFlat i
    outside (f flat)
    loop i

theorem releaseDown_down : Down (release_object x) (releaseDown x) := ⟨rfl, fun _ => rfl⟩

theorem acquireDown_down : Down (acquire_object x) (acquireDown x) := ⟨rfl, fun _ => rfl⟩

theorem closeDown_down : Down (closeFile x) (closeDown x) := by
  refine ⟨rfl, fun i => ?_⟩
  rw [closeDown]
  unfold closeFile
  congr 1
  funext flat
  dsimp only
  split
  · rfl
  · rfl

/-- The loop calls out for each object, last to first, and does nothing else. -/
theorem Down.spec {f : FlatBinderObject → Prog W Fault Unit} {loop : Nat → Prog (Ctx W) Fault Unit}
    (h : Down f loop) {Q : Unit → Ctx W → Prop} {n : Nat} (hwhole : WholeObjects c.parcel 0 n)
    (hcalls : wp (forEach f (flats c.parcel 0 n).reverse) (fun _ w => Q () (c.setWorld w))
      (fun e => E (.inCall e)) c.world) :
    wp (loop n) Q E c := by
  induction n generalizing c with
  | zero =>
    rw [h.1]
    rw [flats_zero] at hcalls
    exact hcalls
  | succ n ih =>
    obtain ⟨o, ho, hin⟩ := hwhole n (Nat.zero_le _) (by omega)
    have hlast : flats c.parcel 0 (n + 1) = flats c.parcel 0 n ++ [c.parcel.flatAt o] := by
      rw [flats_eq_map, flats_eq_map, window_append, List.map_append, Nat.zero_add]
      congr 1
      have := flats_succ (n := 0) ho
      rw [flats_zero] at this
      exact this
    rw [hlast, List.reverse_append, List.reverse_singleton, List.singleton_append] at hcalls
    unfold forEach at hcalls
    rw [wp_bind] at hcalls
    rw [h.2, wp_bind, loadFlat.spec ho hin, wp_bind, wp_outside]
    refine wp_imp hcalls fun _ w hrest => ?_
    exact ih (fun j hle hlt => hwhole j hle (by omega)) hrest

/-! ## Taking possession -/

/-- The listed objects, last to first. -/
def listedDown (p : Parcel) (n : Nat) : List FlatBinderObject := (flats p 0 n).reverse

/-- What is called where a parcel takes possession with the first `k` of its objects: these are
acquired, all files of the old buffer are closed, and the buffer is handed back. -/
def possess (x : Outside W) (p : Parcel) (k : Nat) : Prog W Fault Unit := do
  forEach (acquire_object x) (listedDown p k)
  forEach (closeFile x) (listedDown p p.mObjectsSize)
  x.freeBuffer p.address

/-- `c'` has the first `n` bytes and the first `k` objects of `c`, in memory of its own. -/
structure Taken (c c' : Ctx W) (n k : Nat) : Prop where
  owner : c'.parcel.mOwner = none
  data : c'.parcel.mData.isSome = true
  length : c'.parcel.cells.length = n
  capacity : c'.parcel.mDataCapacity = n
  size : c'.parcel.mDataSize = min c.parcel.mDataSize n
  pos : c'.parcel.mDataPos = c.parcel.mDataPos
  cells : ∀ q m, q + m ≤ min c.parcel.mDataSize n →
    window c'.parcel.cells q m = window c.parcel.cells q m
  objectsSize : c'.parcel.mObjectsSize = k
  objectsCapacity : c'.parcel.mObjectsCapacity = k
  table : c'.parcel.table = c.parcel.table.take k
  error : c'.parcel.mError = c.parcel.mError
  allowFds : c'.parcel.mAllowFds = c.parcel.mAllowFds
  fresh : c'.heap.fresh = c.heap.fresh

/-- `c'` is `c` but for what the allocator and the error field say. -/
structure OutOfMemory (c c' : Ctx W) : Prop where
  parcel : c'.parcel = { c.parcel with mError := STATUS_NO_MEMORY }
  world : c'.world = c.world
  fresh : c'.heap.fresh = c.heap.fresh

theorem WholeObjects.first {p : Parcel} {k n : Nat} (h : WholeObjects p 0 n) (hk : k ≤ n) :
    WholeObjects p 0 k := fun j hle hlt => h j hle (by omega)

theorem acquireObjects.spec {Q : Unit → Ctx W → Prop}
    (h : WholeObjects c.parcel 0 c.parcel.mObjectsSize)
    (hcalls : wp (forEach (acquire_object x) (listedDown c.parcel c.parcel.mObjectsSize))
      (fun _ w => Q () (c.setWorld w)) (fun e => E (.inCall e)) c.world) :
    wp (acquireObjects x) Q E c := by
  unfold acquireObjects
  rw [wp_bind, wp_thisParcel]
  exact acquireDown_down.spec h hcalls

/-- The release function of a parcel of the driver closes every file, whoever owns it, and hands
the buffer back. -/
theorem callOwner.spec {Q : Unit → Ctx W → Prop} {relFunc : ReleaseFunc}
    (h : WholeObjects c.parcel 0 c.parcel.mObjectsSize)
    (hcalls : wp (forEach (closeFile x) (listedDown c.parcel c.parcel.mObjectsSize))
      (fun _ w => wp (x.freeBuffer c.parcel.address) (fun _ w' => Q () (c.setWorld w'))
        (fun e => E (.inCall e)) w) (fun e => E (.inCall e)) c.world) :
    wp (callOwner x relFunc) Q E c := by
  cases relFunc
  unfold callOwner closeFileDescriptors
  simp only [wp_bind, wp_thisParcel]
  refine closeDown_down.spec h (wp_imp hcalls fun _ w hfree => ?_)
  rw [wp_outside]
  exact hfree

/-- The rest of taking possession, once the owner was called. -/
theorem takePossession.spec {Q : Int → Ctx W → Prop} {n k : Nat} {data : Block UInt8}
    {objects : Option (Block Nat)} {relFunc : ReleaseFunc} (s : Framed c.parcel)
    (howner : c.parcel.mOwner = some relFunc) (hk : k ≤ c.parcel.mObjectsSize)
    (hdata : data.cells.length = n)
    (hobjects : (objects.map fun t => t.cells.length) = if k = 0 then none else some k)
    (hcalls : wp (callOwner x relFunc) (fun _ c₁ => c₁.parcel = c.parcel ∧
      c₁.heap.fresh = c.heap.fresh ∧ ∀ c', Taken c c' n k → c'.world = c₁.world → Q STATUS_OK c')
      E c) :
    wp (takePossession x n k data objects) Q E c := by
  have hsize := s.size
  have hin : 0 + min c.parcel.mDataSize n ≤ c.parcel.cells.length := by
    rw [s.data]
    omega
  have htable : k ≤ c.parcel.table.length := Nat.le_trans hk s.objects
  have hlen : (window c.parcel.cells 0 (min c.parcel.mDataSize n)).length =
      min c.parcel.mDataSize n := length_window hin
  have hcopy : 0 + (window c.parcel.cells 0 (min c.parcel.mDataSize n)).length ≤
      data.cells.length := by
    rw [hlen, hdata]
    omega
  have hcells : ∀ q m, q + m ≤ min c.parcel.mDataSize n →
      window (overlay data.cells 0 (window c.parcel.cells 0 (min c.parcel.mDataSize n))) q m =
        window c.parcel.cells q m := fun q m hq => by
    apply window_copied _ _ hq
    · rwa [Nat.zero_add] at hin
    · rw [hdata]
      exact Nat.min_le_right _ _
  have hnew : ((objects.map fun t => ({ t with
      cells := overlay t.cells 0 (window c.parcel.table 0 k) } : Block Nat)).map
        Block.cells).getD [] = c.parcel.table.take k := by
    cases objects with
    | none =>
      have h0 : k = 0 := by
        by_contra hne
        rw [if_neg hne] at hobjects
        cases hobjects
      rw [h0]
      rfl
    | some t =>
      have hsame : t.cells.length = k := by
        by_cases h0 : k = 0
        · rw [if_pos h0] at hobjects
          cases hobjects
        · rw [if_neg h0] at hobjects
          exact Option.some.inj hobjects
      show overlay t.cells 0 (window c.parcel.table 0 k) = _
      unfold overlay window
      simp [hsame, Nat.min_eq_left htable]
  unfold takePossession
  simp only [wp_bind, wp_thisParcel]
  rw [if_pos (s.buffer (by rw [howner]; rfl)), wp_bind, wp_loadData hin, howner, wp_bind]
  refine wp_imp hcalls ?_
  rintro _ c₁ ⟨hp, hf, hQ⟩
  have hpos : c₁.parcel.mDataPos = c.parcel.mDataPos := by rw [hp]
  have herror : c₁.parcel.mError = c.parcel.mError := by rw [hp]
  have hallow : c₁.parcel.mAllowFds = c.parcel.mAllowFds := by rw [hp]
  have hsize' : min c₁.parcel.mDataSize n = min c.parcel.mDataSize n := by rw [hp]
  simp only [wp_updateHeap, wp_update, wp_pure, wp_bind]
  exact hQ _ ⟨rfl, rfl, (length_overlay hcopy).trans hdata, rfl, hsize', hpos, hcells, rfl, rfl,
    hnew, herror, hallow, hf⟩ rfl

theorem Taken.of_same {c₁ : Ctx W} {n k : Nat} (hp : c₁.parcel = c.parcel)
    (hf : c₁.heap.fresh = c.heap.fresh) (t : Taken c₁ c' n k) : Taken c c' n k where
  owner := t.owner
  data := t.data
  length := t.length
  capacity := t.capacity
  size := hp ▸ t.size
  pos := hp ▸ t.pos
  cells := hp ▸ t.cells
  objectsSize := t.objectsSize
  objectsCapacity := t.objectsCapacity
  table := hp ▸ t.table
  error := hp ▸ t.error
  allowFds := hp ▸ t.allowFds
  fresh := t.fresh.trans hf

/-- A parcel over a buffer of the driver takes possession, or there is no memory for it. -/
theorem continueOwned.spec {Q : Int → Ctx W → Prop} {n k : Nat} (s : Framed c.parcel)
    (howner : c.parcel.mOwner.isSome = true) (hwhole : WholeObjects c.parcel 0 c.parcel.mObjectsSize)
    (h0 : n ≠ 0) (hk : k ≤ c.parcel.mObjectsSize)
    (hnone : ∀ c', OutOfMemory c c' → ¬Ample c.heap → Q STATUS_NO_MEMORY c')
    (hcalls : wp (possess x c.parcel k) (fun _ w => ∀ c', Taken c c' n k → c'.world = w →
      Q STATUS_OK c') (fun e => E (.inCall e)) c.world) :
    wp (continueOwned x n k) Q E c := by
  obtain ⟨relFunc, howner⟩ := Option.isSome_iff_exists.mp howner
  have hno : ∀ r, c.heap.fresh r = none → ¬Ample c.heap := fun r hr ha => ha r hr
  have hmore : ∀ r, (c.mapHeap Heap.next).heap.fresh r = c.heap.fresh r := fun _ => rfl
  unfold possess at hcalls
  rw [wp_bind] at hcalls
  unfold continueOwned
  rw [if_neg h0]
  unfold malloc
  rw [wp_bind, wp_allocate]
  rcases hf : c.heap.fresh c.heap.requests with _ | g
  · exact hnone _ ⟨rfl, rfl, rfl⟩ (hno _ hf)
  simp only [Option.map_some]
  -- the copy is made from the state in which the objects were acquired
  have htake : ∀ (c₁ : Ctx W) (objects : Option (Block Nat)) (w : W), c₁.parcel = c.parcel →
      c₁.heap.fresh = c.heap.fresh → c₁.world = w →
      (objects.map fun t => t.cells.length) = (if k = 0 then none else some k) →
      wp (do
        forEach (closeFile x) (listedDown c.parcel c.parcel.mObjectsSize)
        x.freeBuffer c.parcel.address) (fun _ w => ∀ c', Taken c c' n k → c'.world = w →
          Q STATUS_OK c') (fun e => E (.inCall e)) w →
      wp (takePossession x n k ⟨c.heap.requests, resized [] n (freshByte g)⟩ objects) Q E c₁ := by
    intro c₁ objects w hp hfresh hw hobjects hrest
    subst hw
    rw [wp_bind] at hrest
    refine takePossession.spec (hp ▸ s) (by rw [hp]; exact howner) (hp ▸ hk) (length_resized _ _ _)
      hobjects ?_
    refine callOwner.spec (hp ▸ hwhole) ?_
    rw [hp]
    refine wp_imp hrest fun _ w hfree => wp_imp hfree fun _ w' hQ => ⟨hp, rfl, fun c' t hw => ?_⟩
    exact hQ c' (t.of_same hp hfresh) hw
  split
  · rename_i hk0
    subst hk0
    exact htake _ none c.world rfl rfl rfl rfl hcalls
  · rename_i hk0
    unfold callocObjects
    rw [wp_bind, wp_allocate]
    rcases hf' : (c.mapHeap Heap.next).heap.fresh (c.mapHeap Heap.next).heap.requests with _ | g'
    · exact hnone _ ⟨rfl, rfl, rfl⟩ (hno _ (by rwa [hmore] at hf'))
    simp only [Option.map_some, wp_bind, wp_thisParcel, wp_update]
    refine acquireObjects.spec (hwhole.first hk) ?_
    refine wp_imp hcalls fun _ w hrest => ?_
    exact htake _ _ w rfl rfl rfl (by simp [hk0]) hrest

/-- The loop leaves the parcel and the heap alone, whatever the objects are. -/
theorem Down.keeps {f : FlatBinderObject → Prog W Fault Unit}
    {loop : Nat → Prog (Ctx W) Fault Unit} (h : Down f loop) {n : Nat} :
    wp (loop n) (fun _ c' => c'.parcel = c.parcel ∧ c'.heap = c.heap) (fun _ => True) c := by
  induction n generalizing c with
  | zero =>
    rw [h.1]
    exact ⟨rfl, rfl⟩
  | succ n ih =>
    rw [h.2, wp_bind]
    refine wp_imp loadFlat.keeps fun obj c₁ hc₁ => ?_
    rw [hc₁, wp_bind, wp_outside]
    refine wp_of_all (fun _ w => ?_) fun _ => trivial
    exact ih (c := c.setWorld w)

theorem callOwner.keeps {relFunc : ReleaseFunc} :
    wp (callOwner x relFunc) (fun _ c' => c'.parcel = c.parcel ∧ c'.heap = c.heap)
      (fun _ => True) c := by
  cases relFunc
  unfold callOwner closeFileDescriptors
  simp only [wp_bind, wp_thisParcel]
  refine wp_imp closeDown_down.keeps fun _ c₁ h => ?_
  rw [wp_outside]
  exact wp_of_all (fun _ _ => h) fun _ => trivial

/-- Whatever is called on the way, a parcel that takes possession has its copy, or there was no
memory for it. -/
theorem continueOwned.takes {n k : Nat} (s : Framed c.parcel)
    (ho : c.parcel.mOwner.isSome = true) (h0 : n ≠ 0) (hk : k ≤ c.parcel.mObjectsSize) :
    wp (continueOwned x n k) (fun r c' => r = STATUS_OK ∧ Taken c c' n k ∨
      r = STATUS_NO_MEMORY ∧ OutOfMemory c c') (fun _ => True) c := by
  obtain ⟨relFunc, ho⟩ := Option.isSome_iff_exists.mp ho
  have htake : ∀ (c₁ : Ctx W) (data : Block UInt8) (objects : Option (Block Nat)),
      c₁.parcel = c.parcel → c₁.heap.fresh = c.heap.fresh → data.cells.length = n →
      (objects.map fun t => t.cells.length) = (if k = 0 then none else some k) →
      wp (takePossession x n k data objects) (fun r c' => r = STATUS_OK ∧ Taken c c' n k ∨
        r = STATUS_NO_MEMORY ∧ OutOfMemory c c') (fun _ => True) c₁ := by
    intro c₁ data objects hp hfresh hdata hobjects
    refine takePossession.spec (hp ▸ s) (by rw [hp]; exact ho) (hp ▸ hk) hdata hobjects ?_
    refine wp_imp callOwner.keeps ?_
    rintro _ c₂ ⟨hp₂, hh₂⟩
    exact ⟨hp₂, by rw [hh₂], fun c' t _ => .inl ⟨rfl, t.of_same hp hfresh⟩⟩
  unfold continueOwned
  rw [if_neg h0]
  unfold malloc
  rw [wp_bind, wp_allocate]
  rcases hf : c.heap.fresh c.heap.requests with _ | g
  · exact .inr ⟨rfl, rfl, rfl, rfl⟩
  simp only [Option.map_some]
  split
  · rename_i hk0
    exact htake _ _ none rfl rfl (length_resized _ _ _) (by simp [hk0])
  · rename_i hk0
    unfold callocObjects
    rw [wp_bind, wp_allocate]
    rcases hf' : (c.mapHeap Heap.next).heap.fresh (c.mapHeap Heap.next).heap.requests with _ | g'
    · exact .inr ⟨rfl, rfl, rfl, rfl⟩
    unfold acquireObjects
    simp only [Option.map_some, wp_bind, wp_thisParcel, wp_update]
    refine wp_imp acquireDown_down.keeps ?_
    rintro _ c₁ ⟨hp, hh⟩
    have hfresh : c₁.heap.fresh = c.heap.fresh := by
      rw [hh]
      rfl
    refine htake _ _ _ ?_ hfresh (length_resized _ _ _) (by simp [hk0])
    simp only [Ctx.parcel_mapParcel, hp]
    rfl

theorem continueWrite.spec_borrowed {Q : Int → Ctx W → Prop} {n : Nat} (b : Borrowed c.parcel)
    (hn : n ≤ INT32_MAX) (h0 : n ≠ 0)
    (hnone : ∀ c', OutOfMemory c c' → ¬Ample c.heap → Q STATUS_NO_MEMORY c')
    (hcalls : wp (possess x c.parcel (kept c.parcel n)) (fun _ w => ∀ c',
      Taken c c' n (kept c.parcel n) → c'.world = w → Q STATUS_OK c') (fun e => E (.inCall e))
      c.world) :
    wp (continueWrite x n) Q E c := by
  have htable : c.parcel.mObjectsSize ≤ c.parcel.table.length := by
    rw [b.table]
    exact b.objects
  have ho := b.isSome
  unfold continueWrite
  rw [if_neg (by omega)]
  simp only [wp_bind, wp_thisParcel]
  rw [countKept.spec htable, if_pos ho]
  exact continueOwned.spec b.sound.toFramed ho b.whole h0 (kept_le _ _) hnone hcalls

/-! ## Room for a message, whoever owns it -/

/-- A fault of a function outside. -/
abbrev InCall (e : Fault) : Prop := ∃ e', e = .inCall e'

/-- A parcel whose memory is as it says, built locally or over a buffer of the driver. -/
def Usable (p : Parcel) : Prop := Local p ∨ Borrowed p

theorem Usable.sound {p : Parcel} (u : Usable p) : Sound p := u.elim Local.sound Borrowed.sound

theorem Usable.pos {p : Parcel} (u : Usable p) : p.mDataPos ≤ p.mDataSize :=
  u.elim Local.pos Borrowed.pos

theorem Usable.size {p : Parcel} (u : Usable p) : p.mDataSize ≤ p.mDataCapacity :=
  u.elim Local.size fun b => Nat.le_of_eq b.full.symm

theorem Usable.capacity {p : Parcel} (u : Usable p) : p.mDataCapacity ≤ INT32_MAX :=
  u.elim Local.capacity fun b => b.full ▸ b.capacity

/-- `c'` has the message of `c` in memory of its own, with room for `n` bytes. -/
structure Fitted (c c' : Ctx W) (n : Nat) : Prop where
  framed : Framed c'.parcel
  owner : c'.parcel.mOwner = none
  data : c'.parcel.mData.isSome = true
  capacity : c'.parcel.mDataCapacity = n
  pos : c'.parcel.mDataPos = c.parcel.mDataPos
  size : c'.parcel.mDataSize = c.parcel.mDataSize
  bytes : ∀ q m, q + m ≤ c.parcel.mDataSize →
    window c'.parcel.cells q m = window c.parcel.cells q m
  list : retained c'.parcel = retained c.parcel
  objectsSize : c'.parcel.mObjectsSize = c.parcel.mObjectsSize
  objectsCapacity : c'.parcel.mObjectsCapacity =
    if c.parcel.mOwner.isSome = true then c.parcel.mObjectsSize else c.parcel.mObjectsCapacity
  error : c'.parcel.mError = c.parcel.mError
  allowFds : c'.parcel.mAllowFds = c.parcel.mAllowFds
  fresh : c'.heap.fresh = c.heap.fresh

theorem Fitted.sound {n : Nat} (s : Sound c.parcel) (f : Fitted c c' n) : Sound c'.parcel where
  toFramed := f.framed
  pos := by
    rw [f.pos, f.size]
    exact s.pos

/-- The same, and the objects lie inside the memory too. -/
structure Rehoused (c c' : Ctx W) (n : Nat) : Prop extends Fitted c c' n where
  isLocal : Local c'.parcel

theorem Rehoused.sound {n : Nat} (r : Rehoused c c' n) : Sound c'.parcel := r.isLocal.sound

/-- What is called where a parcel grows. -/
def rehouse (x : Outside W) (p : Parcel) : Prog W Fault Unit :=
  if p.mOwner.isSome = true then possess x p p.mObjectsSize else pure ()

/-- A copy that holds everything. -/
theorem Taken.fitted {n : Nat} (s : Framed c.parcel) (ho : c.parcel.mOwner.isSome = true)
    (hn : n ≤ INT32_MAX) (hsize : c.parcel.mDataSize ≤ n)
    (t : Taken c c' n c.parcel.mObjectsSize) : Fitted c c' n := by
  have hmin : min c.parcel.mDataSize n = c.parcel.mDataSize := Nat.min_eq_left hsize
  have hsize' := t.size
  rw [hmin] at hsize'
  refine ⟨⟨?_, ?_, ?_, ?_, fun _ => t.data⟩, t.owner, t.data, t.capacity, t.pos, hsize',
    fun q m hq => t.cells q m (by rwa [hmin]), ?_, t.objectsSize, ?_, t.error, t.allowFds, t.fresh⟩
  · rw [hsize', t.capacity]
    exact hsize
  · rw [t.capacity]
    exact hn
  · rw [t.length, t.capacity]
  · rw [t.objectsSize, t.table, List.length_take_of_le s.objects]
  · unfold retained
    rw [t.table, t.objectsSize, List.take_take, Nat.min_self]
  · rw [t.objectsCapacity, if_pos ho]

theorem Taken.rehoused {n : Nat} (b : Borrowed c.parcel) (hn : n ≤ INT32_MAX)
    (hsize : c.parcel.mDataSize ≤ n) (t : Taken c c' n c.parcel.mObjectsSize) :
    Rehoused c c' n where
  toFitted := t.fitted b.sound.toFramed b.isSome hn hsize
  isLocal := by
    have f := t.fitted b.sound.toFramed b.isSome hn hsize
    have hpos := (f.sound b.sound).pos
    refine ⟨t.owner, hpos, f.framed.size, f.framed.capacity, f.framed.data, ?_, ?_, ?_⟩
    · rw [t.objectsSize, t.objectsCapacity]
    · rw [t.table, t.objectsCapacity, List.length_take_of_le b.sound.objects]
    · intro i o hi hio
      rw [t.objectsSize] at hi
      rw [t.table, List.getElem?_take_of_lt hi] at hio
      rw [t.capacity]
      exact Nat.le_trans (b.offsets hi hio) hsize

theorem grown_fitted {n : Nat} (s : Framed c.parcel) (howner : c.parcel.mOwner = none)
    (g : Nat → Nat) (hn : n ≤ INT32_MAX) (hcap : c.parcel.mDataCapacity ≤ n) :
    Fitted c (grown c n g) n where
  framed := ⟨Nat.le_trans s.size hcap, hn, length_resized _ _ _, s.objects, fun _ => rfl⟩
  owner := howner
  data := rfl
  capacity := rfl
  pos := rfl
  size := rfl
  bytes := by
    intro q m hq
    have hin : q + m ≤ c.parcel.cells.length := by
      rw [s.data]
      exact Nat.le_trans hq s.size
    exact window_resized _ hin (Nat.le_trans hq (Nat.le_trans s.size hcap))
  list := rfl
  objectsSize := rfl
  objectsCapacity := by
    rw [howner]
    rfl
  error := rfl
  allowFds := rfl
  fresh := grownHeap_fresh _ _ _

theorem grown_rehoused {n : Nat} (l : Local c.parcel) (g : Nat → Nat) (hn : n ≤ INT32_MAX)
    (hcap : c.parcel.mDataCapacity ≤ n) : Rehoused c (grown c n g) n :=
  ⟨grown_fitted l.sound.toFramed l.owner g hn hcap, (grown_kept l g hn hcap).isLocal⟩

/-- A growth moves the message to memory of the parcel's own. Or it asks for too much, or there
is no memory. -/
theorem growData.usable {Q : Int → Ctx W → Prop} {len : Nat} (u : Usable c.parcel) (h0 : 0 < len)
    (hlen : len ≤ INT32_MAX) (hcap : c.parcel.mDataCapacity < growthSize c.parcel.mDataSize len)
    (hbig : INT32_MAX < growthSize c.parcel.mDataSize len → Q STATUS_BAD_VALUE c)
    (hnone : ∀ c', OutOfMemory c c' → ¬Ample c.heap → Q STATUS_NO_MEMORY c')
    (hcalls : growthSize c.parcel.mDataSize len ≤ INT32_MAX → wp (rehouse x c.parcel)
      (fun _ w => ∀ c', Rehoused c c' (growthSize c.parcel.mDataSize len) → c'.world = w →
        Q STATUS_OK c') (fun e => E (.inCall e)) c.world) :
    wp (growData x len) Q E c := by
  rcases u with l | b
  · rw [growData.spec l.sound l.owner h0 hlen hcap]
    have ho : ¬c.parcel.mOwner.isSome = true := by
      rw [l.owner]
      exact Bool.false_ne_true
    unfold rehouse at hcalls
    rw [if_neg ho] at hcalls
    split
    · rename_i hlarge
      exact hbig hlarge
    · rename_i hfit
      rcases hf : c.heap.fresh c.heap.requests with _ | g
      · exact hnone _ ⟨rfl, rfl, rfl⟩ fun ha => ha _ hf
      · have hfit := Nat.le_of_not_lt hfit
        exact hcalls hfit _ (grown_rehoused l g hfit (Nat.le_of_lt hcap)) rfl
  · have ho := b.isSome
    have hgrow := le_growthSize c.parcel.mDataSize len
    have hkept : kept c.parcel (growthSize c.parcel.mDataSize len) = c.parcel.mObjectsSize := by
      unfold kept
      rw [if_neg (by omega)]
    unfold rehouse at hcalls
    rw [if_pos ho] at hcalls
    rw [growData.continues b.sound.toFramed (by omega) hlen]
    by_cases hlarge : INT32_MAX < growthSize c.parcel.mDataSize len
    · unfold continueWrite
      rw [if_pos hlarge]
      exact hbig hlarge
    · have hfit := Nat.le_of_not_lt hlarge
      refine continueWrite.spec_borrowed b hfit (by omega) hnone ?_
      rw [hkept]
      refine wp_imp (hcalls hfit) fun _ w hQ c' t hw => hQ c' (t.rehoused b hfit ?_) hw
      omega

/-- What a growth by `len` bytes does, whatever is called on the way: it asks for too much, there
is no memory, or the message is moved. -/
def Grew (c : Ctx W) (len : Nat) (r : Int) (c' : Ctx W) : Prop :=
  INT32_MAX < growthSize c.parcel.mDataSize len ∧ r = STATUS_BAD_VALUE ∧ c' = c ∨
    growthSize c.parcel.mDataSize len ≤ INT32_MAX ∧ r = STATUS_NO_MEMORY ∧ OutOfMemory c c' ∨
    growthSize c.parcel.mDataSize len ≤ INT32_MAX ∧ r = STATUS_OK ∧
      Fitted c c' (growthSize c.parcel.mDataSize len)

theorem growData.grows {len : Nat} (s : Sound c.parcel) (h0 : 0 < len)
    (hcap : c.parcel.mDataCapacity < growthSize c.parcel.mDataSize len) :
    wp (growData x len) (Grew c len) (fun _ => True) c := by
  have hgrow := le_growthSize c.parcel.mDataSize len
  by_cases hlen : INT32_MAX < len
  · unfold growData
    rw [if_pos hlen]
    exact .inl ⟨by omega, rfl, rfl⟩
  have hlen := Nat.le_of_not_lt hlen
  by_cases howner : c.parcel.mOwner = none
  · rw [growData.spec s howner h0 hlen hcap]
    split
    · rename_i hlarge
      exact .inl ⟨hlarge, rfl, rfl⟩
    · rename_i hfit
      have hfit := Nat.le_of_not_lt hfit
      rcases c.heap.fresh c.heap.requests with _ | g
      · exact .inr (.inl ⟨hfit, rfl, rfl, rfl, rfl⟩)
      · exact .inr (.inr ⟨hfit, rfl, grown_fitted s.toFramed howner g hfit (Nat.le_of_lt hcap)⟩)
  · have ho : c.parcel.mOwner.isSome = true := Option.isSome_iff_ne_none.mpr howner
    have hkept : kept c.parcel (growthSize c.parcel.mDataSize len) = c.parcel.mObjectsSize := by
      unfold kept
      rw [if_neg (by omega)]
    rw [growData.continues s.toFramed (by omega) hlen]
    unfold continueWrite
    by_cases hlarge : INT32_MAX < growthSize c.parcel.mDataSize len
    · rw [if_pos hlarge]
      exact .inl ⟨hlarge, rfl, rfl⟩
    · have hfit := Nat.le_of_not_lt hlarge
      rw [if_neg hlarge]
      simp only [wp_bind, wp_thisParcel]
      rw [countKept.spec s.objects, if_pos ho, hkept]
      refine wp_imp (continueOwned.takes s.toFramed ho (by omega) le_rfl) fun r c' h => ?_
      rcases h with ⟨hr, t⟩ | ⟨hr, hnone⟩
      · exact .inr (.inr ⟨hfit, hr, t.fitted s.toFramed ho hfit (by omega)⟩)
      · exact .inr (.inl ⟨hfit, hr, hnone⟩)

end system_binder.Parcel
