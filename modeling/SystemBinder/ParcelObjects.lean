-- The objects of a parcel that was built locally: how one is added, and which
-- ones a smaller size drops.
import SystemBinder.ParcelWrite

open prog memory

namespace system_binder.Parcel

variable {W : Type} {x : Outside W} {c c' : Ctx W} {E : Fault → Prop}

/-! ## Reading the object table -/

/-- The `n` objects that the table lists from the `i`-th on. -/
def flats (p : Parcel) (i n : Nat) : List FlatBinderObject :=
  (window p.table i n).map fun o => .ofBytes (window p.cells o FLAT_SIZE)

/-- Releases some objects, first to last. -/
def releaseAll (x : Outside W) : List FlatBinderObject → Prog W Fault Unit
  | [] => pure ()
  | obj :: rest => do
    release_object x obj
    releaseAll x rest

theorem loadFlat.spec {Q : FlatBinderObject → Ctx W → Prop} {i o : Nat}
    (ho : c.parcel.table[i]? = some o) (hin : o + FLAT_SIZE ≤ c.parcel.cells.length) :
    wp (loadFlat i) Q E c ↔ Q (.ofBytes (window c.parcel.cells o FLAT_SIZE)) c := by
  unfold loadFlat
  simp only [wp_bind, wp_loadObject ho, wp_loadData hin, wp_pure]

/-- A listed object lies inside the buffer. -/
theorem Local.listed_object {p : Parcel} {i : Nat} (l : Local p) (hi : i < p.mObjectsSize) :
    ∃ o, p.table[i]? = some o ∧ o + FLAT_SIZE ≤ p.cells.length := by
  have hlt : i < p.table.length := by
    rw [l.table]
    exact Nat.lt_of_lt_of_le hi l.objects
  refine ⟨p.table[i], List.getElem?_eq_getElem hlt, ?_⟩
  rw [l.data]
  exact l.offsets i _ hi (List.getElem?_eq_getElem hlt)

theorem flats_succ {p : Parcel} {i n o : Nat} (ho : p.table[i]? = some o) :
    flats p i (n + 1) = .ofBytes (window p.cells o FLAT_SIZE) :: flats p (i + 1) n := by
  have hw : window p.table i 1 = [o] := by
    apply List.ext_getElem?
    intro k
    rw [getElem?_window]
    rcases k with _ | k
    · simpa using ho
    · simp
  unfold flats
  rw [Nat.add_comm n 1, window_append, hw]
  rfl

theorem flats_zero (p : Parcel) (i : Nat) : flats p i 0 = [] := by
  unfold flats
  rw [window_zero]
  rfl

/-- The loop that releases objects calls out for each of them and only forgets what it
knows of files. -/
theorem releaseUp.spec {Q : Unit → Ctx W → Prop} {i n : Nat} (l : Local c.parcel)
    (hn : i + n ≤ c.parcel.mObjectsSize)
    (hrel : wp (releaseAll x (flats c.parcel i n)) (fun _ w => ∀ b,
      Q () ((c.setWorld w).mapParcel fun p => { p with mFdsKnown := b }))
      (fun e => E (.inCall e)) c.world) :
    wp (releaseUp x i n) Q E c := by
  induction n generalizing c i with
  | zero =>
    rw [flats_zero] at hrel
    exact hrel c.parcel.mFdsKnown
  | succ n ih =>
    obtain ⟨o, ho, hin⟩ := l.listed_object (i := i) (by omega)
    rw [flats_succ ho] at hrel
    unfold releaseUp
    simp only [wp_bind, loadFlat.spec ho hin]
    unfold releaseAll at hrel
    rw [wp_bind] at hrel
    -- the flag changes before the call, the world in it
    have hcall : ∀ b, wp (outside (release_object x (.ofBytes (window c.parcel.cells o FLAT_SIZE))))
        (fun _ s' => wp (releaseUp x (i + 1) n) Q E s') E
        (c.mapParcel fun p => { p with mFdsKnown := b }) := by
      intro b
      rw [wp_outside]
      refine wp_imp hrel ?_
      intro _ w hw
      refine ih ⟨l.owner, l.pos, l.size, l.capacity, l.data, l.objects, l.table, l.offsets⟩
        (by show i + 1 + n ≤ c.parcel.mObjectsSize; omega) ?_
      exact wp_imp hw fun _ w' hb b' => hb b'
    simp only [wp_ite, wp_bind, wp_update]
    exact ⟨fun _ => hcall false, fun _ => hcall c.parcel.mFdsKnown⟩

/-! ## A smaller size -/

/-- The objects that a smaller size drops. -/
def dropped (p : Parcel) (desired : Nat) : List FlatBinderObject :=
  flats p (kept p desired) (p.mObjectsSize - kept p desired)

/-- `c'` is `c` with `k` objects, and with the size `n` and the position `q`. -/
structure Shrunk (c c' : Ctx W) (n q k : Nat) : Prop where
  isLocal : Local c'.parcel
  data : c'.parcel.mData = c.parcel.mData
  capacity : c'.parcel.mDataCapacity = c.parcel.mDataCapacity
  size : c'.parcel.mDataSize = n
  pos : c'.parcel.mDataPos = q
  objects : c'.parcel.mObjectsSize = k
  table : ∀ i, i < k → c'.parcel.table[i]? = c.parcel.table[i]?
  error : c'.parcel.mError = c.parcel.mError
  zero : c'.parcel.mDeallocZero = c.parcel.mDeallocZero
  fresh : c'.heap.fresh = c.heap.fresh

theorem Shrunk.cells {n q k : Nat} (s : Shrunk c c' n q k) :
    c'.parcel.cells = c.parcel.cells := by
  unfold Parcel.cells
  rw [s.data]

/-- The table of a parcel with `k` objects left. -/
theorem Local.fewer {p p' : Parcel} {k : Nat} (l : Local p) (hk : k ≤ p.mObjectsSize)
    (hd : p'.mData = p.mData) (hc : p'.mDataCapacity = p.mDataCapacity)
    (hs : p'.mDataSize = p.mDataSize) (hp : p'.mDataPos = p.mDataPos)
    (ho : p'.mOwner = p.mOwner) (hn : p'.mObjectsSize = k)
    (ht : p'.table.length = p'.mObjectsCapacity) (hroom : k ≤ p'.mObjectsCapacity)
    (htable : ∀ i, i < k → p'.table[i]? = p.table[i]?) : Local p' where
  owner := ho.trans l.owner
  pos := by
    rw [hp, hs]
    exact l.pos
  size := by
    rw [hs, hc]
    exact l.size
  capacity := by
    rw [hc]
    exact l.capacity
  data := by
    rw [hc, ← l.data]
    unfold Parcel.cells
    rw [hd]
  objects := by rwa [hn]
  table := ht
  offsets := by
    intro i o hi hio
    rw [hn] at hi
    rw [htable i hi] at hio
    rw [hc]
    exact l.offsets i o (by omega) hio

theorem dropObjects.spec {Q : Unit → Ctx W → Prop} {k : Nat} (l : Local c.parcel)
    (hk : k < c.parcel.mObjectsSize)
    (hrel : wp (releaseAll x (flats c.parcel k (c.parcel.mObjectsSize - k)))
      (fun _ w => ∀ c', Shrunk c c' c.parcel.mDataSize c.parcel.mDataPos k → c'.world = w → Q () c')
      (fun e => E (.inCall e)) c.world) :
    wp (dropObjects x k) Q E c := by
  have hlen := l.table
  have hobj := l.objects
  unfold dropObjects
  simp only [wp_bind, wp_thisParcel]
  refine releaseUp.spec l (by omega) (wp_imp hrel ?_)
  intro _ w hQ b
  simp only [wp_ite, wp_bind, wp_update]
  refine ⟨fun h0 => ?_, fun hne => ?_⟩
  · subst h0
    refine hQ _ ⟨?_, rfl, rfl, rfl, rfl, rfl, fun i hi => absurd hi (Nat.not_lt_zero i), rfl, rfl,
      rfl⟩ rfl
    exact l.fewer (Nat.zero_le _) rfl rfl rfl rfl rfl rfl rfl (Nat.le_refl _)
      (fun i hi => absurd hi (Nat.not_lt_zero i))
  · unfold reallocObjects
    rw [wp_allocate]
    simp only [Ctx.heap_mapParcel, Ctx.heap_setWorld]
    have hfirst : ∀ g, ∀ i, i < k → (resized c.parcel.table k (freshWord g))[i]? =
        c.parcel.table[i]? := fun g i hi => getElem?_resized _ (by omega) hi
    rcases c.heap.fresh c.heap.requests with _ | g
    · refine hQ _ ⟨?_, rfl, rfl, rfl, rfl, rfl, fun _ _ => rfl, rfl, rfl, rfl⟩ rfl
      exact l.fewer (Nat.le_of_lt hk) rfl rfl rfl rfl rfl rfl l.table (by
        show k ≤ c.parcel.mObjectsCapacity
        omega) (fun _ _ => rfl)
    · refine hQ _ ⟨?_, rfl, rfl, rfl, rfl, rfl, hfirst g, rfl, rfl, rfl⟩ rfl
      exact l.fewer (Nat.le_of_lt hk) rfl rfl rfl rfl rfl rfl (length_resized _ _ _)
        (Nat.le_refl _) (hfirst g)

/-- Own data that is large enough is kept, and clipped to the new size. -/
theorem resizeOwn.spec_clip {Q : Int → Ctx W → Prop} {n : Nat} {data : Block UInt8}
    (h : n ≤ c.parcel.mDataCapacity) :
    wp (resizeOwn n data) Q E c ↔ Q STATUS_OK (c.mapParcel fun p => { p with
      mDataSize := min p.mDataSize n, mDataPos := min p.mDataPos n }) := by
  unfold resizeOwn
  simp only [wp_bind, wp_thisParcel]
  rw [if_neg (by omega)]
  exact Iff.rfl

theorem Shrunk.clip {n k : Nat} (s : Shrunk c c' c.parcel.mDataSize c.parcel.mDataPos k) :
    Shrunk c (c'.mapParcel fun p => { p with
      mDataSize := min p.mDataSize n, mDataPos := min p.mDataPos n })
      (min c.parcel.mDataSize n) (min c.parcel.mDataPos n) k where
  isLocal :=
    { owner := s.isLocal.owner
      pos := by
        have := s.isLocal.pos
        simp only [Ctx.parcel_mapParcel]
        omega
      size := Nat.le_trans (Nat.min_le_left _ _) s.isLocal.size
      capacity := s.isLocal.capacity
      data := s.isLocal.data
      objects := s.isLocal.objects
      table := s.isLocal.table
      offsets := s.isLocal.offsets }
  data := s.data
  capacity := s.capacity
  size := by simp only [Ctx.parcel_mapParcel, s.size]
  pos := by simp only [Ctx.parcel_mapParcel, s.pos]
  objects := s.objects
  table := s.table
  error := s.error
  zero := s.zero
  fresh := s.fresh

theorem Shrunk.refl (l : Local c.parcel) :
    Shrunk c c c.parcel.mDataSize c.parcel.mDataPos c.parcel.mObjectsSize where
  isLocal := l
  data := rfl
  capacity := rfl
  size := rfl
  pos := rfl
  objects := rfl
  table := fun _ _ => rfl
  error := rfl
  zero := rfl
  fresh := rfl

/-- `continueWrite` on own data that is large enough: drops objects and clips. -/
theorem continueWrite.spec_shrink {Q : Int → Ctx W → Prop} {n : Nat} (l : Local c.parcel)
    {data : Block UInt8} (hd : c.parcel.mData = some data) (hn : n ≤ c.parcel.mDataCapacity)
    (hrel : wp (releaseAll x (dropped c.parcel n)) (fun _ w => ∀ c',
      Shrunk c c' (min c.parcel.mDataSize n) (min c.parcel.mDataPos n) (kept c.parcel n) →
      c'.world = w → Q STATUS_OK c') (fun e => E (.inCall e)) c.world) :
    wp (continueWrite x n) Q E c := by
  have ho : c.parcel.mOwner.isSome = false := by
    rw [l.owner]
    rfl
  have hmax : ¬INT32_MAX < n := by
    have := l.capacity
    omega
  have htable : c.parcel.mObjectsSize ≤ c.parcel.table.length := by
    rw [l.table]
    exact l.objects
  unfold continueWrite
  rw [if_neg hmax]
  simp only [wp_bind, wp_thisParcel]
  rw [countKept.spec htable]
  simp only [ho, Bool.false_eq_true, if_false, hd, wp_ite, wp_bind]
  have hclip : ∀ c1, Shrunk c c1 c.parcel.mDataSize c.parcel.mDataPos (kept c.parcel n) →
      (∀ c', Shrunk c c' (min c.parcel.mDataSize n) (min c.parcel.mDataPos n) (kept c.parcel n) →
        c'.world = c1.world → Q STATUS_OK c') → wp (resizeOwn n data) Q E c1 := by
    intro c1 s hQ
    rw [resizeOwn.spec_clip (by rw [s.capacity]; exact hn)]
    exact hQ _ s.clip rfl
  refine ⟨fun hlt => ?_, fun hge => ?_⟩
  · refine dropObjects.spec l hlt (wp_imp hrel ?_)
    intro _ w hQ c1 s hw
    exact hclip c1 s (fun c' s' hw' => hQ c' s' (hw'.trans hw))
  · have hk : kept c.parcel n = c.parcel.mObjectsSize := by
      have := kept_le c.parcel n
      omega
    have hnil : dropped c.parcel n = [] := by
      unfold dropped
      rw [hk, Nat.sub_self, flats_zero]
    rw [hnil] at hrel
    exact hclip c (by rw [hk]; exact Shrunk.refl l) (fun c' s' hw => hrel c' s' hw)

/-- `continueWrite` on a parcel that was built locally: it refuses and keeps the content, it
makes room, or it drops the objects from the new end on. -/
theorem continueWrite.spec {Q : Int → Ctx W → Prop} {n : Nat} (l : Local c.parcel)
    (hfail : ∀ r c', r ≠ STATUS_OK → Kept c c' → Q r c')
    (hgrow : ∀ c', Kept c c' → n ≤ c'.parcel.mDataCapacity → c.parcel.mDataSize ≤ n →
      c'.parcel.mError = c.parcel.mError → Q STATUS_OK c')
    (hrel : n ≤ c.parcel.mDataCapacity → wp (releaseAll x (dropped c.parcel n)) (fun _ w => ∀ c',
      Shrunk c c' (min c.parcel.mDataSize n) (min c.parcel.mDataPos n) (kept c.parcel n) →
      c'.world = w → Q STATUS_OK c') (fun e => E (.inCall e)) c.world) :
    wp (continueWrite x n) Q E c := by
  by_cases hbig : INT32_MAX < n
  · unfold continueWrite
    rw [if_pos hbig]
    exact hfail _ _ (by decide) (Kept.refl l)
  have hn : n ≤ INT32_MAX := Nat.le_of_not_lt hbig
  have hstarved : Q STATUS_NO_MEMORY (starved c) := hfail _ _ (by decide) (starved_kept l)
  have hgrown : ∀ g, c.parcel.mDataCapacity ≤ n → Q STATUS_OK (grown c n g) := fun g hcap =>
    hgrow _ (grown_kept l g hn hcap) (Nat.le_refl _) (Nat.le_trans l.size hcap) rfl
  rcases hd : c.parcel.mData with _ | data
  · rw [continueWrite.spec_first l.sound.toFramed l.sound.starts l.owner hn hd]
    have hcells : c.parcel.cells = [] := by
      unfold Parcel.cells
      rw [hd]
      rfl
    have hlen := l.data
    rw [hcells, List.length_nil] at hlen
    split
    · exact hstarved
    · exact hgrown _ (by omega)
  · by_cases hcap : n ≤ c.parcel.mDataCapacity
    · exact continueWrite.spec_shrink l hd hcap (hrel hcap)
    · rw [continueWrite.spec_grow l.sound.toFramed l.sound.starts l.owner hn (by omega)]
      split
      · exact hstarved
      · exact hgrown _ (by omega)

/-! ## One more object -/

/-- `c'` has the content and the objects of `c`, and perhaps more room for both. -/
structure Prepared (c c' : Ctx W) : Prop where
  isLocal : Local c'.parcel
  pos : c'.parcel.mDataPos = c.parcel.mDataPos
  size : c'.parcel.mDataSize = c.parcel.mDataSize
  capacity : c.parcel.mDataCapacity ≤ c'.parcel.mDataCapacity
  cells : ∀ q n, q + n ≤ c.parcel.mDataCapacity →
    window c'.parcel.cells q n = window c.parcel.cells q n
  objectsSize : c'.parcel.mObjectsSize = c.parcel.mObjectsSize
  table : ∀ i, i < c.parcel.mObjectsSize → c'.parcel.table[i]? = c.parcel.table[i]?
  world : c'.world = c.world
  fresh : c'.heap.fresh = c.heap.fresh

theorem Kept.prepared (k : Kept c c') : Prepared c c' where
  isLocal := k.isLocal
  pos := k.pos
  size := k.size
  capacity := k.capacity
  cells := k.cells
  objectsSize := k.objectsSize
  table := by
    intro i _
    unfold Parcel.table
    rw [k.objects]
  world := k.world
  fresh := k.fresh

theorem Prepared.trans {c'' : Ctx W} (a : Prepared c c') (b : Prepared c' c'') :
    Prepared c c'' where
  isLocal := b.isLocal
  pos := b.pos.trans a.pos
  size := b.size.trans a.size
  capacity := Nat.le_trans a.capacity b.capacity
  cells := fun q n hq => (b.cells q n (Nat.le_trans hq a.capacity)).trans (a.cells q n hq)
  objectsSize := b.objectsSize.trans a.objectsSize
  table := fun i hi => (b.table i (by rw [a.objectsSize]; exact hi)).trans (a.table i hi)
  world := b.world.trans a.world
  fresh := b.fresh.trans a.fresh

theorem growObjects.spec {Q : Int → Ctx W → Prop} (l : Local c.parcel)
    (hok : ∀ c', Prepared c c' → c'.parcel.mDataCapacity = c.parcel.mDataCapacity →
      c'.parcel.mError = c.parcel.mError →
      c'.parcel.mObjectsSize < c'.parcel.mObjectsCapacity → Q STATUS_OK c')
    (hfail : ∀ r c', r ≠ STATUS_OK → Prepared c c' → Q r c') :
    wp growObjects Q E c := by
  have hno := hfail STATUS_NO_MEMORY
  have hlen := l.table
  have hobj := l.objects
  unfold growObjects
  simp only [wp_bind, wp_thisParcel, wp_ite, wp_pure]
  refine ⟨fun _ => hno c (by decide) (Kept.refl l).prepared, fun _ => ⟨fun _ =>
    hno c (by decide) (Kept.refl l).prepared, fun _ => ⟨fun _ =>
    hno c (by decide) (Kept.refl l).prepared, fun _ => ?_⟩⟩⟩
  unfold reallocObjects
  rw [wp_allocate]
  rcases c.heap.fresh c.heap.requests with _ | g
  · exact hno _ (by decide) ⟨l, rfl, rfl, Nat.le_refl _, fun _ _ _ => rfl, rfl, fun _ _ => rfl,
      rfl, rfl⟩
  · have htable : ∀ i, i < c.parcel.mObjectsSize →
        (resized c.parcel.table ((c.parcel.mObjectsSize + 2) * 3 / 2) (freshWord g))[i]? =
          c.parcel.table[i]? := fun i hi => getElem?_resized _ (by omega) (by omega)
    refine hok _ ⟨?_, rfl, rfl, Nat.le_refl _, fun _ _ _ => rfl, rfl, htable, rfl, rfl⟩ rfl rfl ?_
    · exact l.fewer (Nat.le_refl _) rfl rfl rfl rfl rfl rfl (length_resized _ _ _)
        (by simp only [Ctx.parcel_mapParcel]; omega) htable
    · simp only [Ctx.parcel_mapParcel, Ctx.parcel_mapHeap]
      omega

/-- `c'` is `c` after the object `val` was written, and listed if `listed` says so. -/
structure Added (c c' : Ctx W) (val : FlatBinderObject) (listed : Bool) : Prop where
  isLocal : Local c'.parcel
  pos : c'.parcel.mDataPos = c.parcel.mDataPos + FLAT_SIZE
  size : c'.parcel.mDataSize = max c.parcel.mDataSize (c.parcel.mDataPos + FLAT_SIZE)
  capacity : c.parcel.mDataCapacity ≤ c'.parcel.mDataCapacity
  flat : window c'.parcel.cells c.parcel.mDataPos FLAT_SIZE = val.toBytes
  others : ∀ q m, q + m ≤ c.parcel.mDataCapacity →
    (q + m ≤ c.parcel.mDataPos ∨ c.parcel.mDataPos + FLAT_SIZE ≤ q) →
    window c'.parcel.cells q m = window c.parcel.cells q m
  objects : c'.parcel.mObjectsSize = c.parcel.mObjectsSize + (if listed = true then 1 else 0)
  table : ∀ i, i < c.parcel.mObjectsSize → c'.parcel.table[i]? = c.parcel.table[i]?
  entry : listed = true → c'.parcel.table[c.parcel.mObjectsSize]? = some c.parcel.mDataPos
  fresh : c'.heap.fresh = c.heap.fresh

theorem Prepared.added {c'' : Ctx W} {val : FlatBinderObject} {listed : Bool}
    (a : Prepared c c') (b : Added c' c'' val listed) : Added c c'' val listed where
  isLocal := b.isLocal
  pos := by rw [b.pos, a.pos]
  size := by rw [b.size, a.size, a.pos]
  capacity := Nat.le_trans a.capacity b.capacity
  flat := by
    rw [← a.pos]
    exact b.flat
  others := by
    intro q m hq hd
    rw [b.others q m (Nat.le_trans hq a.capacity) (by rwa [a.pos]), a.cells q m hq]
  objects := by rw [b.objects, a.objectsSize]
  table := fun i hi => (b.table i (by rw [a.objectsSize]; exact hi)).trans (a.table i hi)
  entry := by
    intro h
    rw [← a.objectsSize, ← a.pos]
    exact b.entry h
  fresh := b.fresh.trans a.fresh

@[simp] theorem length_toBytes (val : FlatBinderObject) : val.toBytes.length = FLAT_SIZE := by
  unfold FlatBinderObject.toBytes FLAT_SIZE
  simp only [List.length_append, length_wordBytes]

/-- What a parcel keeps when an object could not be written. -/
structure Refused (c c' : Ctx W) : Prop where
  isLocal : Local c'.parcel
  pos : c'.parcel.mDataPos = c.parcel.mDataPos
  size : c'.parcel.mDataSize = c.parcel.mDataSize
  capacity : c.parcel.mDataCapacity ≤ c'.parcel.mDataCapacity
  others : ∀ q m, q + m ≤ c.parcel.mDataCapacity →
    (q + m ≤ c.parcel.mDataPos ∨ c.parcel.mDataPos + FLAT_SIZE ≤ q) →
    window c'.parcel.cells q m = window c.parcel.cells q m
  objectsSize : c'.parcel.mObjectsSize = c.parcel.mObjectsSize
  table : ∀ i, i < c.parcel.mObjectsSize → c'.parcel.table[i]? = c.parcel.table[i]?
  world : c'.world = c.world
  fresh : c'.heap.fresh = c.heap.fresh

theorem Prepared.refused (a : Prepared c c') : Refused c c' :=
  ⟨a.isLocal, a.pos, a.size, a.capacity, fun q m hq _ => a.cells q m hq, a.objectsSize, a.table,
    a.world, a.fresh⟩

theorem Prepared.trans_refused {c'' : Ctx W} (a : Prepared c c') (b : Refused c' c'') :
    Refused c c'' where
  isLocal := b.isLocal
  pos := b.pos.trans a.pos
  size := b.size.trans a.size
  capacity := Nat.le_trans a.capacity b.capacity
  others := by
    intro q m hq hd
    rw [b.others q m (Nat.le_trans hq a.capacity) (by rwa [a.pos]), a.cells q m hq]
  objectsSize := b.objectsSize.trans a.objectsSize
  table := fun i hi => (b.table i (by rw [a.objectsSize]; exact hi)).trans (a.table i hi)
  world := b.world.trans a.world
  fresh := b.fresh.trans a.fresh

/-- A table with one more entry. -/
theorem Local.listed {p : Parcel} {o : Nat} (l : Local p)
    (hroom : p.mObjectsSize < p.mObjectsCapacity) (ho : o + FLAT_SIZE ≤ p.mDataCapacity) :
    Local { p.listed p.mObjectsSize o with mObjectsSize := p.mObjectsSize + 1 } ∧
      (∀ i, i < p.mObjectsSize → (p.listed p.mObjectsSize o).table[i]? = p.table[i]?) ∧
      (p.listed p.mObjectsSize o).table[p.mObjectsSize]? = some o := by
  have hlen : p.mObjectsSize + [o].length ≤ p.table.length := by
    rw [l.table]
    exact hroom
  have hlt : p.mObjectsSize < p.table.length := by
    rw [l.table]
    exact hroom
  have htable := table_listed (o := o) hlt
  have hold : ∀ i, i < p.mObjectsSize → (p.listed p.mObjectsSize o).table[i]? = p.table[i]? := by
    intro i hi
    rw [htable, getElem?_overlay hlen, if_neg (by omega)]
  have hnew : (p.listed p.mObjectsSize o).table[p.mObjectsSize]? = some o := by
    rw [htable, getElem?_overlay hlen, if_pos ⟨Nat.le_refl _, by simp⟩, Nat.sub_self]
    rfl
  refine ⟨⟨l.owner, l.pos, l.size, l.capacity, l.data, hroom, ?_, ?_⟩, hold, hnew⟩
  · show (p.listed p.mObjectsSize o).table.length = p.mObjectsCapacity
    rw [htable, length_overlay hlen, l.table]
  · intro i o' hi hio
    rcases Nat.lt_succ_iff_lt_or_eq.mp hi with hlt' | heq
    · exact l.offsets i o' hlt' ((hold i hlt').symm.trans hio)
    · subst heq
      have : some o = some o' := hnew.symm.trans hio
      cases this
      exact ho

/-- The stored object is listed, if it must be, and the position moves over it. -/
theorem listFlat.spec {Q : Int → Ctx W → Prop} {val : FlatBinderObject} {nullMetaData : Bool}
    (l : Local c.parcel) (hroom : c.parcel.mDataPos + FLAT_SIZE ≤ c.parcel.mDataCapacity)
    (hobj : c.parcel.mObjectsSize < c.parcel.mObjectsCapacity)
    (hflat : window c.parcel.cells c.parcel.mDataPos FLAT_SIZE = val.toBytes)
    (hlisted : nullMetaData = true ∨ val.binder ≠ 0 →
      wp (acquire_object x val) (fun _ w => ∀ c', Added c c' val true → c'.world = w →
        Q STATUS_OK c') (fun e => E (.inCall e)) c.world)
    (hplain : ¬(nullMetaData = true ∨ val.binder ≠ 0) →
      ∀ c', Added c c' val false → c'.world = c.world → Q STATUS_OK c') :
    wp (listFlat x val nullMetaData) Q E c := by
  have hfin : c.parcel.mDataPos + FLAT_SIZE ≤ INT32_MAX := Nat.le_trans hroom l.capacity
  have hpos := l.sz_pos hroom
  unfold listFlat
  rw [wp_ite]
  refine ⟨fun hyes => ?_, fun hno => ?_⟩
  · have htab : c.parcel.mObjectsSize < c.parcel.table.length := by rwa [l.table]
    obtain ⟨ll, hold, hnew⟩ := l.listed hobj hroom
    simp only [wp_bind, wp_thisParcel]
    rw [wp_storeObject htab, wp_outside]
    refine wp_imp (hlisted hyes) ?_
    intro _ w hQ
    simp only [wp_update]
    rw [finishWrite.spec (c := ((c.mapParcel fun p => p.listed _ _).setWorld w).mapParcel
      fun p => { p with mObjectsSize := p.mObjectsSize + 1 }) hfin]
    exact hQ _ ⟨ll.advance hroom, hpos, congrArg (max c.parcel.mDataSize) hpos, Nat.le_refl _,
      hflat, fun _ _ _ _ => rfl, rfl, hold, fun _ => hnew, rfl⟩ rfl
  · rw [finishWrite.spec hfin]
    exact hplain hno _ ⟨l.advance hroom, hpos, congrArg (max c.parcel.mDataSize) hpos,
      Nat.le_refl _, hflat, fun _ _ _ _ => rfl, rfl, fun _ _ => rfl, fun h => absurd h (by simp),
      rfl⟩ rfl

/-- A store of the object at the position, and then the step over it. -/
theorem Added.of_stored {c₁ : Ctx W} {val : FlatBinderObject} {listed : Bool} (l : Local c.parcel)
    (hroom : c.parcel.mDataPos + FLAT_SIZE ≤ c.parcel.mDataCapacity)
    (hcells : c₁.parcel.cells = (c.parcel.stored c.parcel.mDataPos val.toBytes).cells)
    (hp : c₁.parcel.mDataPos = c.parcel.mDataPos) (hs : c₁.parcel.mDataSize = c.parcel.mDataSize)
    (hcap : c₁.parcel.mDataCapacity = c.parcel.mDataCapacity)
    (hn : c₁.parcel.mObjectsSize = c.parcel.mObjectsSize)
    (ht : c₁.parcel.mObjects = c.parcel.mObjects) (hf : c₁.heap.fresh = c.heap.fresh)
    (a : Added c₁ c' val listed) : Added c c' val listed where
  isLocal := a.isLocal
  pos := by rw [a.pos, hp]
  size := by rw [a.size, hs, hp]
  capacity := by
    rw [← hcap]
    exact a.capacity
  flat := by
    rw [← hp]
    exact a.flat
  others := by
    intro q m hq hd
    rw [a.others q m (by rwa [hcap]) (by rwa [hp]), hcells]
    exact l.window_stored (by rwa [length_toBytes]) (by rwa [length_toBytes])
  objects := by rw [a.objects, hn]
  table := by
    intro i hi
    rw [a.table i (by rwa [hn])]
    unfold Parcel.table
    rw [ht]
  entry := by
    intro h
    rw [← hn, ← hp]
    exact a.entry h
  fresh := a.fresh.trans hf

theorem storeFlat.spec {Q : Int → Ctx W → Prop} {val : FlatBinderObject} {nullMetaData : Bool}
    (l : Local c.parcel) (hroom : c.parcel.mDataPos + FLAT_SIZE ≤ c.parcel.mDataCapacity)
    (hobj : c.parcel.mObjectsSize < c.parcel.mObjectsCapacity)
    (hfail : ∀ r c', r ≠ STATUS_OK → Refused c c' → Q r c')
    (hlisted : nullMetaData = true ∨ val.binder ≠ 0 →
      wp (acquire_object x val) (fun _ w => ∀ c', Added c c' val true → c'.world = w →
        Q STATUS_OK c') (fun e => E (.inCall e)) c.world)
    (hplain : ¬(nullMetaData = true ∨ val.binder ≠ 0) →
      ∀ c', Added c c' val false → c'.world = c.world → Q STATUS_OK c') :
    wp (storeFlat x val nullMetaData) Q E c := by
  have hbytes : c.parcel.mDataPos + val.toBytes.length ≤ c.parcel.mDataCapacity := by
    rwa [length_toBytes]
  have hin : c.parcel.mDataPos + val.toBytes.length ≤ c.parcel.cells.length := by rwa [l.data]
  have ls := l.stored hbytes
  have hflat : window (c.parcel.stored c.parcel.mDataPos val.toBytes).cells c.parcel.mDataPos
      FLAT_SIZE = val.toBytes := by
    have := l.window_stored_same hbytes
    rwa [length_toBytes] at this
  -- whatever the flags of files say
  have hrest : ∀ c₁ : Ctx W, Local c₁.parcel →
      c₁.parcel.mData = (c.parcel.stored c.parcel.mDataPos val.toBytes).mData →
      c₁.parcel.mDataPos = c.parcel.mDataPos → c₁.parcel.mDataSize = c.parcel.mDataSize →
      c₁.parcel.mDataCapacity = c.parcel.mDataCapacity →
      c₁.parcel.mObjectsSize = c.parcel.mObjectsSize →
      c₁.parcel.mObjectsCapacity = c.parcel.mObjectsCapacity →
      c₁.parcel.mObjects = c.parcel.mObjects → c₁.heap = c.heap → c₁.world = c.world →
      wp (listFlat x val nullMetaData) Q E c₁ := by
    intro c₁ l₁ hd hp hs hcap hn hnc ht hh hw
    have hcells : c₁.parcel.cells = (c.parcel.stored c.parcel.mDataPos val.toBytes).cells := by
      unfold Parcel.cells
      rw [hd]
    have hadd : ∀ c' b, Added c₁ c' val b → Added c c' val b := fun c' b a =>
      a.of_stored l hroom hcells hp hs hcap hn ht (by rw [hh])
    refine listFlat.spec l₁ (by rwa [hp, hcap]) (by rwa [hn, hnc]) (by rw [hp, hcells, hflat])
      (fun hyes => ?_) (fun hno c' a hw' => hplain hno c' (hadd c' _ a) (hw'.trans hw))
    rw [hw]
    refine wp_imp (hlisted hyes) ?_
    intro _ w hQ c' a hw'
    exact hQ c' (hadd c' _ a) hw'
  unfold storeFlat
  simp only [wp_bind, wp_thisParcel]
  rw [wp_storeData hin]
  simp only [wp_ite, wp_pure, wp_bind, wp_update]
  refine ⟨fun _ => ⟨fun _ => hfail _ _ (by decide) ⟨ls, rfl, rfl, Nat.le_refl _, ?_, rfl,
    fun _ _ => rfl, rfl, rfl⟩, fun _ => ?_⟩, fun _ => ?_⟩
  · exact fun q m _ hd => l.window_stored hbytes (by rwa [length_toBytes])
  · exact hrest _ ⟨ls.owner, ls.pos, ls.size, ls.capacity, ls.data, ls.objects, ls.table,
      ls.offsets⟩ rfl rfl rfl rfl rfl rfl rfl rfl rfl
  · exact hrest _ ls rfl rfl rfl rfl rfl rfl rfl rfl rfl

/-- `Parcel_writeObject` stores a whole object, though it asks `growData` for the size of a
pointer only, and acquires it where it lists it. Or it finds no room, or no file is allowed. -/
theorem writeObject.spec {Q : Int → Ctx W → Prop} {val : FlatBinderObject} {nullMetaData : Bool}
    (l : Local c.parcel)
    (hfail : ∀ r c', r ≠ STATUS_OK → Refused c c' → Q r c')
    (hlisted : nullMetaData = true ∨ val.binder ≠ 0 →
      wp (acquire_object x val) (fun _ w => ∀ c', Added c c' val true → c'.world = w →
        Q STATUS_OK c') (fun e => E (.inCall e)) c.world)
    (hplain : ¬(nullMetaData = true ∨ val.binder ≠ 0) →
      ∀ c', Added c c' val false → c'.world = c.world → Q STATUS_OK c') :
    wp (writeObject x val nullMetaData) Q E c := by
  have hpos : sz (c.parcel.mDataPos + FLAT_SIZE) = c.parcel.mDataPos + FLAT_SIZE := by
    apply sz_of_le
    have h1 := l.pos
    have h2 := l.size
    have h3 := l.capacity
    unfold INT32_MAX at h3
    unfold FLAT_SIZE SIZE_MAX
    omega
  -- with room for the data, and for the object or not
  have hstore : ∀ c₁, Prepared c c₁ →
      c₁.parcel.mDataPos + FLAT_SIZE ≤ c₁.parcel.mDataCapacity →
      c₁.parcel.mObjectsSize < c₁.parcel.mObjectsCapacity →
      wp (storeFlat x val nullMetaData) Q E c₁ := by
    intro c₁ a hroom hobj
    refine storeFlat.spec a.isLocal hroom hobj
      (fun r c' hne b => hfail r c' hne (a.trans_refused b)) (fun hyes => ?_)
      (fun hno c' b hw => hplain hno c' (a.added b) (hw.trans a.world))
    rw [a.world]
    refine wp_imp (hlisted hyes) ?_
    intro _ w hQ c' b hw
    exact hQ c' (a.added b) hw
  have hobjects : ∀ c₁, Prepared c c₁ →
      c₁.parcel.mDataPos + FLAT_SIZE ≤ c₁.parcel.mDataCapacity →
      c₁.parcel.mObjectsCapacity = c.parcel.mObjectsCapacity →
      wp (listWithRoom x (decide (c.parcel.mObjectsSize < c.parcel.mObjectsCapacity)) val
        nullMetaData) Q E c₁ := by
    intro c₁ a hroom hcap
    unfold listWithRoom
    simp only [wp_ite, wp_bind, decide_eq_true_eq, wp_pure]
    refine ⟨fun hlt => hstore c₁ a hroom (by rwa [a.objectsSize, hcap]), fun _ => ?_⟩
    refine growObjects.spec a.isLocal (fun c₂ b hc _ hobj => ?_) (fun r c₂ hne b => ?_)
    · refine ⟨fun _ => hstore c₂ (a.trans b) ?_ hobj, fun h => absurd rfl h⟩
      rw [b.pos, hc]
      exact hroom
    · exact ⟨fun h => absurd h hne, fun _ => hfail r c₂ hne (a.trans b).refused⟩
  unfold writeObject
  simp only [wp_bind, wp_thisParcel, wp_ite, wp_pure, hpos]
  refine ⟨fun hroom => hobjects c (Kept.refl l).prepared hroom rfl, fun hfull => ?_⟩
  have hgrow := flat_le_growthSize c.parcel.mDataSize
  have hps := l.pos
  refine growData.room l (by decide) (by decide) (by omega) (fun c₁ k _ hcap => ?_)
    (fun r c₁ hne k _ => ⟨fun h => absurd h hne, fun _ => hfail r c₁ hne k.prepared.refused⟩)
  refine ⟨fun _ => hobjects c₁ k.prepared ?_ k.objectsCapacity, fun h => absurd rfl h⟩
  rw [k.pos]
  omega

end system_binder.Parcel
