-- How a parcel that owns its memory grows: what `continueWrite` and `growData`
-- do when the buffer is too small, and why the space they find is enough.
import SystemBinder.ParcelData

open prog memory

namespace system_binder.Parcel

variable {W : Type} {x : Outside W} {c : Ctx W} {p : Parcel} {E : Fault → Prop}

/-- A parcel that was built locally: it owns its buffer and its table of objects,
which have the sizes it says, and all that it points to lies inside them. -/
structure Local (p : Parcel) : Prop where
  owner : p.mOwner = none
  pos : p.mDataPos ≤ p.mDataSize
  size : p.mDataSize ≤ p.mDataCapacity
  capacity : p.mDataCapacity ≤ INT32_MAX
  data : p.cells.length = p.mDataCapacity
  objects : p.mObjectsSize ≤ p.mObjectsCapacity
  table : p.table.length = p.mObjectsCapacity
  offsets : ∀ i o, i < p.mObjectsSize → p.table[i]? = some o → o + FLAT_SIZE ≤ p.mDataCapacity

/-- What a parcel says of its memory is right, whoever owns it. Its position may be anywhere. -/
structure Framed (p : Parcel) : Prop where
  size : p.mDataSize ≤ p.mDataCapacity
  capacity : p.mDataCapacity ≤ INT32_MAX
  data : p.cells.length = p.mDataCapacity
  objects : p.mObjectsSize ≤ p.table.length
  buffer : p.mOwner.isSome = true → p.mData.isSome = true

/-- And the position is not behind the data. -/
structure Sound (p : Parcel) : Prop extends Framed p where
  pos : p.mDataPos ≤ p.mDataSize

/-- A NULL buffer has no room. -/
theorem Framed.empty {p : Parcel} (f : Framed p) (hd : p.mData = none) :
    p.cells = [] ∧ p.mDataCapacity = 0 ∧ p.mDataSize = 0 := by
  have hcells : p.cells = [] := by
    unfold Parcel.cells
    rw [hd]
    rfl
  have hcap : p.mDataCapacity = 0 := by
    rw [← f.data, hcells]
    rfl
  exact ⟨hcells, hcap, Nat.le_zero.mp (hcap ▸ f.size)⟩

/-- Where there is no buffer, the position is at the start. -/
abbrev StartsEmpty (p : Parcel) : Prop := p.mData = none → p.mDataPos = 0

theorem Sound.starts {p : Parcel} (s : Sound p) : StartsEmpty p := fun hd =>
  Nat.le_zero.mp ((s.toFramed.empty hd).2.2 ▸ s.pos)

theorem Local.sound {p : Parcel} (l : Local p) : Sound p where
  pos := l.pos
  size := l.size
  capacity := l.capacity
  data := l.data
  objects := l.table ▸ l.objects
  buffer := by
    rw [l.owner]
    exact fun h => absurd h Bool.false_ne_true

theorem empty_local : Local empty where
  owner := rfl
  pos := Nat.le_refl _
  size := Nat.le_refl _
  capacity := Nat.zero_le _
  data := rfl
  objects := Nat.le_refl _
  table := rfl
  offsets := fun i _ hi _ => absurd hi (Nat.not_lt_zero i)

/-- Sums below `SIZE_MAX` do not wrap. -/
theorem sz_of_le {n : Nat} (h : n ≤ SIZE_MAX) : sz n = n := by
  unfold SIZE_MAX at h
  exact Nat.mod_eq_of_lt (by omega)

/-! ## The state after a growth -/

/-- The heap after a parcel got `n` bytes. -/
def grownHeap (p : Parcel) (n : Nat) (h : Heap) : Heap :=
  match p.mData with
  | none => (h.next.addSize n).incCount
  | some b => ((h.next.giveBack (if p.mDeallocZero = true
      then { b with cells := overlay b.cells 0 (List.replicate p.mDataCapacity 0) }
      else b)).addSize n).subSize p.mDataCapacity

/-- The parcel with a buffer of `n` bytes. -/
def widened (address n : Nat) (g : Nat → Nat) (p : Parcel) : Parcel :=
  { p with
    mData := some ⟨address, resized p.cells n (freshByte g)⟩
    mDataCapacity := n }

/-- The state after a growth to `n` bytes. -/
def grown (c : Ctx W) (n : Nat) (g : Nat → Nat) : Ctx W :=
  (c.mapHeap (grownHeap c.parcel n)).mapParcel (widened c.heap.requests n g)

/-- The state after a growth that found no memory. -/
def starved (c : Ctx W) : Ctx W :=
  (c.mapHeap Heap.next).mapParcel fun p => { p with mError := STATUS_NO_MEMORY }

@[simp] theorem cells_widened (a n : Nat) (g : Nat → Nat) (p : Parcel) :
    (widened a n g p).cells = resized p.cells n (freshByte g) := rfl

@[simp] theorem grownHeap_fresh (p : Parcel) (n : Nat) (h : Heap) :
    (grownHeap p n h).fresh = h.fresh := by
  unfold grownHeap
  split <;> rfl

/-- The position at the start. -/
def restarted (c : Ctx W) : Ctx W := c.mapParcel fun p => { p with mDataPos := 0 }

/-- `continueWrite` on a parcel without data. Wherever the position was, it is at the start. -/
theorem continueWrite.spec_null {Q : Int → Ctx W → Prop} {n : Nat} (f : Framed c.parcel)
    (howner : c.parcel.mOwner = none) (hn : n ≤ INT32_MAX) (hd : c.parcel.mData = none) :
    wp (continueWrite x n) Q E c ↔
      match c.heap.fresh c.heap.requests with
      | none => Q STATUS_NO_MEMORY (starved c)
      | some g => Q STATUS_OK (grown (restarted c) n g) := by
  obtain ⟨-, -, hsize⟩ := f.empty hd
  have ho : c.parcel.mOwner.isSome = false := by
    rw [howner]
    rfl
  have htable := f.objects
  unfold continueWrite
  rw [if_neg (by omega)]
  simp only [wp_bind, wp_thisParcel, countKept.spec htable, ho, Bool.false_eq_true, if_false, hd,
    firstData, malloc, wp_allocate]
  rcases c.heap.fresh c.heap.requests with _ | g
  · exact Iff.rfl
  · have hgrown : grown (restarted c) n g = (((c.mapHeap Heap.next).mapHeap
        (Heap.addSize n)).mapHeap Heap.incCount).mapParcel (fun p => { p with
          mData := some ⟨c.heap.requests, resized [] n (freshByte g)⟩
          mDataSize := 0, mDataPos := 0, mDataCapacity := n }) := by
      simp only [grown, restarted, widened, grownHeap, hd, Ctx.mapHeap, Ctx.mapParcel, hsize]
      rfl
    simp only [hgrown, Option.map_some]
    exact Iff.rfl

theorem restarted_of_start (h : c.parcel.mDataPos = 0) : restarted c = c := by
  unfold restarted Ctx.mapParcel
  rw [← h]

theorem continueWrite.spec_first {Q : Int → Ctx W → Prop} {n : Nat} (f : Framed c.parcel)
    (hstarts : StartsEmpty c.parcel) (howner : c.parcel.mOwner = none) (hn : n ≤ INT32_MAX)
    (hd : c.parcel.mData = none) :
    wp (continueWrite x n) Q E c ↔
      match c.heap.fresh c.heap.requests with
      | none => Q STATUS_NO_MEMORY (starved c)
      | some g => Q STATUS_OK (grown c n g) := by
  rw [continueWrite.spec_null f howner hn hd, restarted_of_start (hstarts hd)]

/-- `continueWrite` asked for more than there is. -/
theorem continueWrite.spec_grow {Q : Int → Ctx W → Prop} {n : Nat} (s : Framed c.parcel)
    (hstarts : StartsEmpty c.parcel) (howner : c.parcel.mOwner = none) (hn : n ≤ INT32_MAX)
    (hcap : c.parcel.mDataCapacity < n) :
    wp (continueWrite x n) Q E c ↔
      match c.heap.fresh c.heap.requests with
      | none => Q STATUS_NO_MEMORY (starved c)
      | some g => Q STATUS_OK (grown c n g) := by
  rcases hd : c.parcel.mData with _ | b
  · exact continueWrite.spec_first s hstarts howner hn hd
  have hkept : kept c.parcel n = c.parcel.mObjectsSize := by
    have := s.size
    unfold kept
    rw [if_neg (by omega)]
  have htable := s.objects
  have ho : c.parcel.mOwner.isSome = false := by
    rw [howner]
    rfl
  have hcells : c.parcel.cells = b.cells := by
    unfold Parcel.cells
    rw [hd]
    rfl
  have hlen : b.cells.length = c.parcel.mDataCapacity := hcells ▸ s.data
  unfold continueWrite
  rw [if_neg (by omega)]
  simp only [wp_bind, wp_thisParcel, countKept.spec htable, hkept, ho, Bool.false_eq_true,
    if_false, hd, if_neg (Nat.lt_irrefl c.parcel.mObjectsSize), resizeOwn, if_pos hcap,
    reallocZeroFree.spec hlen]
  rcases c.heap.fresh c.heap.requests with _ | g
  · exact Iff.rfl
  · have hgrown : grown c n g = ((((c.mapHeap Heap.next).mapHeap (Heap.giveBack
        (if c.parcel.mDeallocZero = true
          then { b with cells := overlay b.cells 0 (List.replicate c.parcel.mDataCapacity 0) }
          else b))).mapHeap (Heap.addSize n)).mapHeap
            (Heap.subSize c.parcel.mDataCapacity)).mapParcel (fun p => { p with
          mData := some ⟨c.heap.requests, resized b.cells n (freshByte g)⟩
          mDataCapacity := n }) := by
      simp only [grown, widened, grownHeap, hd, hcells, Ctx.mapHeap, Ctx.mapParcel]
    simp only [hgrown]
    exact Iff.rfl

/-- What `growData` asks for when it needs `len` more bytes. -/
def growthSize (size len : Nat) : Nat := max ((size + len) * 3 / 2) 128

/-- Below the limit `growData` goes on to `continueWrite`. -/
theorem growData.continues {Q : Int → Ctx W → Prop} {len : Nat} (s : Framed c.parcel)
    (h0 : c.parcel.mDataSize < (c.parcel.mDataSize + len) * 3 / 2) (hlen : len ≤ INT32_MAX) :
    wp (growData x len) Q E c ↔ wp (continueWrite x (growthSize c.parcel.mDataSize len)) Q E c := by
  have hs : c.parcel.mDataSize ≤ INT32_MAX := Nat.le_trans s.size s.capacity
  have hmax : SIZE_MAX = 2 ^ 64 - 1 := rfl
  have himax : INT32_MAX = 2 ^ 31 - 1 := rfl
  unfold growData
  rw [if_neg (by omega)]
  simp only [wp_bind, wp_thisParcel]
  rw [if_neg (by omega), if_neg (by omega), if_neg (by omega)]
  exact Iff.rfl

theorem growData.spec {Q : Int → Ctx W → Prop} {len : Nat} (s : Sound c.parcel)
    (howner : c.parcel.mOwner = none) (h0 : 0 < len) (hlen : len ≤ INT32_MAX)
    (hcap : c.parcel.mDataCapacity < growthSize c.parcel.mDataSize len) :
    wp (growData x len) Q E c ↔
      if INT32_MAX < growthSize c.parcel.mDataSize len then Q STATUS_BAD_VALUE c
      else
        match c.heap.fresh c.heap.requests with
        | none => Q STATUS_NO_MEMORY (starved c)
        | some g => Q STATUS_OK (grown c (growthSize c.parcel.mDataSize len) g) := by
  rw [growData.continues s.toFramed (by omega) hlen]
  split
  · rename_i hbig
    unfold continueWrite
    rw [if_pos hbig]
    exact Iff.rfl
  · rename_i hfit
    exact continueWrite.spec_grow s.toFramed s.starts howner (Nat.le_of_not_lt hfit) hcap

/-! ## What a growth keeps -/

/-- `c'` has the content of `c`, and perhaps more room. -/
structure Kept (c c' : Ctx W) : Prop where
  isLocal : Local c'.parcel
  pos : c'.parcel.mDataPos = c.parcel.mDataPos
  size : c'.parcel.mDataSize = c.parcel.mDataSize
  capacity : c.parcel.mDataCapacity ≤ c'.parcel.mDataCapacity
  cells : ∀ q n, q + n ≤ c.parcel.mDataCapacity →
    window c'.parcel.cells q n = window c.parcel.cells q n
  objects : c'.parcel.mObjects = c.parcel.mObjects
  objectsSize : c'.parcel.mObjectsSize = c.parcel.mObjectsSize
  objectsCapacity : c'.parcel.mObjectsCapacity = c.parcel.mObjectsCapacity
  world : c'.world = c.world
  fresh : c'.heap.fresh = c.heap.fresh

theorem Kept.refl (l : Local c.parcel) : Kept c c where
  isLocal := l
  pos := rfl
  size := rfl
  capacity := Nat.le_refl _
  cells := fun _ _ _ => rfl
  objects := rfl
  objectsSize := rfl
  objectsCapacity := rfl
  world := rfl
  fresh := rfl

theorem starved_kept (l : Local c.parcel) : Kept c (starved c) where
  isLocal := ⟨l.owner, l.pos, l.size, l.capacity, l.data, l.objects, l.table, l.offsets⟩
  pos := rfl
  size := rfl
  capacity := Nat.le_refl _
  cells := fun _ _ _ => rfl
  objects := rfl
  objectsSize := rfl
  objectsCapacity := rfl
  world := rfl
  fresh := rfl

theorem grown_kept {n : Nat} (l : Local c.parcel) (g : Nat → Nat) (hn : n ≤ INT32_MAX)
    (hcap : c.parcel.mDataCapacity ≤ n) : Kept c (grown c n g) where
  isLocal :=
    { owner := l.owner
      pos := l.pos
      size := Nat.le_trans l.size hcap
      capacity := hn
      data := by
        exact length_resized _ _ _
      objects := l.objects
      table := l.table
      offsets := fun i o hi ho => Nat.le_trans (l.offsets i o hi ho) hcap }
  pos := rfl
  size := rfl
  capacity := hcap
  cells := by
    intro q m hq
    have hin : q + m ≤ c.parcel.cells.length := by rwa [l.data]
    exact window_resized _ hin (Nat.le_trans hq hcap)
  objects := rfl
  objectsSize := rfl
  objectsCapacity := rfl
  world := rfl
  fresh := grownHeap_fresh _ _ _

/-- Why a growth to hold `len` more bytes can fail. -/
def CannotGrow (c : Ctx W) (len : Nat) : Prop :=
  INT32_MAX < growthSize c.parcel.mDataSize len ∨ c.heap.fresh c.heap.requests = none

/-- A growth keeps the content. It gives the room that the formula asks for, or an error. -/
theorem growData.room {Q : Int → Ctx W → Prop} {len : Nat} (l : Local c.parcel) (h0 : 0 < len)
    (hlen : len ≤ INT32_MAX) (hcap : c.parcel.mDataCapacity < growthSize c.parcel.mDataSize len)
    (hok : ∀ c', Kept c c' → c'.parcel.mError = c.parcel.mError →
      growthSize c.parcel.mDataSize len ≤ c'.parcel.mDataCapacity → Q STATUS_OK c')
    (hfail : ∀ err c', err ≠ STATUS_OK → Kept c c' → CannotGrow c len → Q err c') :
    wp (growData x len) Q E c := by
  rw [growData.spec l.sound l.owner h0 hlen hcap]
  split
  · rename_i hbig
    exact hfail _ _ (by decide) (Kept.refl l) (.inl hbig)
  · rename_i hfit
    rcases hf : c.heap.fresh c.heap.requests with _ | g
    · exact hfail _ _ (by decide) (starved_kept l) (.inr hf)
    · exact hok _ (grown_kept l g (Nat.le_of_not_lt hfit) (Nat.le_of_lt hcap)) rfl
        (Nat.le_refl _)

/-- The formula gives room for what is asked at the end of the data. -/
theorem le_growthSize (size len : Nat) : size + len ≤ growthSize size len := by
  unfold growthSize
  omega

/-- Asked for the size of a pointer, it gives room for a whole object: half of 8 and the
data is 16 bytes from 24 on, and below that there is the floor of 128. -/
theorem flat_le_growthSize (size : Nat) : size + FLAT_SIZE ≤ growthSize size 8 := by
  unfold growthSize FLAT_SIZE
  omega

end system_binder.Parcel
