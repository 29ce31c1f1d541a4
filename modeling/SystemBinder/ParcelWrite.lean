-- What each write does to a parcel that was built locally: where it stores,
-- how far it moves on, and that it leaves the rest alone.
import SystemBinder.ParcelGrowth

open prog memory

namespace system_binder.Parcel

variable {W : Type} {x : Outside W} {c c' c'' : Ctx W} {E : Fault → Prop}

/-- `c'` is `c` after a write of `n` bytes at the position. -/
structure Advanced (c c' : Ctx W) (n : Nat) : Prop where
  isLocal : Local c'.parcel
  pos : c'.parcel.mDataPos = c.parcel.mDataPos + n
  size : c'.parcel.mDataSize = max c.parcel.mDataSize (c.parcel.mDataPos + n)
  capacity : c.parcel.mDataCapacity ≤ c'.parcel.mDataCapacity
  others : ∀ q m, q + m ≤ c.parcel.mDataCapacity →
    (q + m ≤ c.parcel.mDataPos ∨ c.parcel.mDataPos + n ≤ q) →
    window c'.parcel.cells q m = window c.parcel.cells q m
  objects : c'.parcel.mObjects = c.parcel.mObjects
  objectsSize : c'.parcel.mObjectsSize = c.parcel.mObjectsSize
  objectsCapacity : c'.parcel.mObjectsCapacity = c.parcel.mObjectsCapacity
  error : c'.parcel.mError = c.parcel.mError
  world : c'.world = c.world
  fresh : c'.heap.fresh = c.heap.fresh

/-- A growth and then a write. -/
theorem Kept.advanced {n : Nat} (k : Kept c c') (he : c'.parcel.mError = c.parcel.mError)
    (a : Advanced c' c'' n) : Advanced c c'' n where
  isLocal := a.isLocal
  pos := by rw [a.pos, k.pos]
  size := by rw [a.size, k.size, k.pos]
  capacity := Nat.le_trans k.capacity a.capacity
  others := by
    intro q m hq hd
    rw [a.others q m (Nat.le_trans hq k.capacity) (by rwa [k.pos]), k.cells q m hq]
  objects := by rw [a.objects, k.objects]
  objectsSize := by rw [a.objectsSize, k.objectsSize]
  objectsCapacity := by rw [a.objectsCapacity, k.objectsCapacity]
  error := by rw [a.error, he]
  world := by rw [a.world, k.world]
  fresh := by rw [a.fresh, k.fresh]

/-! ## Storing at the position -/

theorem finishWrite.spec {Q : Int → Ctx W → Prop} {len : Nat}
    (h : c.parcel.mDataPos + len ≤ INT32_MAX) :
    wp (finishWrite len) Q E c ↔ Q STATUS_OK (c.mapParcel (advance len)) := by
  unfold finishWrite
  rw [if_neg (by omega)]
  exact Iff.rfl

/-- Inside the buffer a position does not wrap. -/
theorem Local.sz_pos {p : Parcel} {n : Nat} (l : Local p)
    (hroom : p.mDataPos + n ≤ p.mDataCapacity) : sz (p.mDataPos + n) = p.mDataPos + n :=
  sz_of_le (Nat.le_trans hroom (Nat.le_trans l.capacity (by decide)))

/-- A store inside the buffer. -/
theorem Local.stored {p : Parcel} {q : Nat} {bs : List UInt8} (l : Local p)
    (h : q + bs.length ≤ p.mDataCapacity) : Local (p.stored q bs) where
  owner := l.owner
  pos := l.pos
  size := l.size
  capacity := l.capacity
  data := by
    have hin : q + bs.length ≤ p.cells.length := by rwa [l.data]
    rw [cells_stored hin, length_overlay hin]
    exact l.data
  objects := l.objects
  table := l.table
  offsets := l.offsets

/-- A step of the position inside the buffer. -/
theorem Local.advance {p : Parcel} {n : Nat} (l : Local p)
    (h : p.mDataPos + n ≤ p.mDataCapacity) : Local (advance n p) where
  owner := l.owner
  pos := Nat.le_max_right _ _
  size := by
    show max p.mDataSize (sz (p.mDataPos + n)) ≤ p.mDataCapacity
    rw [l.sz_pos h]
    exact Nat.max_le.mpr ⟨l.size, h⟩
  capacity := l.capacity
  data := l.data
  objects := l.objects
  table := l.table
  offsets := l.offsets

/-- What a store leaves alone. -/
theorem Local.window_stored {p : Parcel} {q r m : Nat} {bs : List UInt8} (l : Local p)
    (h : q + bs.length ≤ p.mDataCapacity) (hd : r + m ≤ q ∨ q + bs.length ≤ r) :
    window (p.stored q bs).cells r m = window p.cells r m := by
  have hin : q + bs.length ≤ p.cells.length := by rwa [l.data]
  rw [cells_stored hin]
  exact window_overlay_other hin hd

theorem Local.window_stored_same {p : Parcel} {q : Nat} {bs : List UInt8} (l : Local p)
    (h : q + bs.length ≤ p.mDataCapacity) : window (p.stored q bs).cells q bs.length = bs := by
  have hin : q + bs.length ≤ p.cells.length := by rwa [l.data]
  rw [cells_stored hin, window_overlay_same hin]

/-- The position moves over `n` bytes, of which `bs` were stored at `q`. -/
theorem stored_advanced {n q : Nat} {b : List UInt8} (l : Local c.parcel)
    (hroom : c.parcel.mDataPos + n ≤ c.parcel.mDataCapacity) (hq : c.parcel.mDataPos ≤ q)
    (hbs : q + b.length ≤ c.parcel.mDataPos + n) :
    Advanced c ((c.mapParcel fun p => p.stored q b).mapParcel (Parcel.advance n)) n where
  isLocal := (l.stored (Nat.le_trans hbs hroom)).advance hroom
  pos := l.sz_pos hroom
  size := congrArg (max c.parcel.mDataSize) (l.sz_pos hroom)
  capacity := Nat.le_refl _
  others := fun r m _ hd => l.window_stored (Nat.le_trans hbs hroom) (by omega)
  objects := rfl
  objectsSize := rfl
  objectsCapacity := rfl
  error := rfl
  world := rfl
  fresh := rfl

/-- A store into the bytes that a write moved over. -/
theorem Advanced.stored {n q : Nat} {b : List UInt8} (a : Advanced c c' n)
    (hq : c.parcel.mDataPos ≤ q) (hbs : q + b.length ≤ c.parcel.mDataPos + n) :
    Advanced c (c'.mapParcel fun p => p.stored q b) n := by
  have hin : q + b.length ≤ c'.parcel.mDataCapacity := by
    have hp := a.isLocal.pos
    have hs := a.isLocal.size
    rw [a.pos] at hp
    omega
  exact
    { isLocal := a.isLocal.stored hin
      pos := a.pos
      size := a.size
      capacity := a.capacity
      others := fun r m hr hd =>
        (a.isLocal.window_stored hin (by omega)).trans (a.others r m hr hd)
      objects := a.objects
      objectsSize := a.objectsSize
      objectsCapacity := a.objectsCapacity
      error := a.error
      world := a.world
      fresh := a.fresh }

theorem storeAligned.spec {Q : Int → Ctx W → Prop} {bs : List UInt8} (l : Local c.parcel)
    (hroom : c.parcel.mDataPos + bs.length ≤ c.parcel.mDataCapacity)
    (hQ : ∀ c', Advanced c c' bs.length →
      window c'.parcel.cells c.parcel.mDataPos bs.length = bs → Q STATUS_OK c') :
    wp (storeAligned bs) Q E c := by
  have hin : c.parcel.mDataPos + bs.length ≤ c.parcel.cells.length := by rwa [l.data]
  unfold storeAligned
  simp only [wp_bind, wp_thisParcel, wp_storeData hin]
  rw [finishWrite.spec (c := c.mapParcel fun p => p.stored c.parcel.mDataPos bs)
    (Nat.le_trans hroom l.capacity)]
  refine hQ _ (stored_advanced l hroom (Nat.le_refl _) (Nat.le_refl _)) ?_
  exact l.window_stored_same hroom

/-- `writeAligned` stores the bytes, or finds no room for them. -/
theorem writeAligned.spec {Q : Int → Ctx W → Prop} {bs : List UInt8} (l : Local c.parcel)
    (h0 : 0 < bs.length) (hlen : bs.length ≤ INT32_MAX)
    (hok : ∀ c', Advanced c c' bs.length →
      window c'.parcel.cells c.parcel.mDataPos bs.length = bs → Q STATUS_OK c')
    (hfail : ∀ err c', err ≠ STATUS_OK → Kept c c' → CannotGrow c bs.length → Q err c') :
    wp (writeAligned x bs) Q E c := by
  have hpos : c.parcel.mDataPos ≤ INT32_MAX := Nat.le_trans l.pos (Nat.le_trans l.size l.capacity)
  have hsz : sz (c.parcel.mDataPos + bs.length) = c.parcel.mDataPos + bs.length := by
    apply sz_of_le
    have : SIZE_MAX = 2 ^ 64 - 1 := rfl
    have : INT32_MAX = 2 ^ 31 - 1 := rfl
    omega
  unfold writeAligned
  simp only [wp_bind, wp_thisParcel, hsz, wp_ite]
  refine ⟨fun hroom => storeAligned.spec l hroom hok, fun hfull => ?_⟩
  have hgrow := le_growthSize c.parcel.mDataSize bs.length
  have hl := l.pos
  refine growData.room l h0 hlen (by omega) ?_ ?_
  · intro c1 k he hroom
    refine ⟨fun _ => ?_, fun hne => absurd rfl hne⟩
    refine storeAligned.spec k.isLocal (by rw [k.pos]; omega) (fun c2 a hw => ?_)
    exact hok c2 (k.advanced he a) (by rwa [k.pos] at hw)
  · intro err c1 hne k hno
    exact ⟨fun he => absurd he hne, fun _ => hfail err c1 hne k hno⟩

/-! ## Storing in place -/

theorem stored_nil (c : Ctx W) :
    (c.mapParcel fun p => p.stored c.parcel.mDataPos []) = c := by
  have ho : ∀ b : Block UInt8, { b with cells := overlay b.cells c.parcel.mDataPos [] } = b := by
    intro b
    simp [overlay]
  simp only [Ctx.mapParcel, Parcel.stored, ho, Option.map_id']

theorem padSize_of_le {n : Nat} (h : n ≤ INT32_MAX) : padSize n = (n + 3) / 4 * 4 := by
  unfold padSize
  rw [sz_of_le]
  have : SIZE_MAX = 2 ^ 64 - 1 := rfl
  have : INT32_MAX = 2 ^ 31 - 1 := rfl
  omega

/-- The mask leaves zeros in the padding. -/
theorem padding_zero {k j : Nat} (w : BitVec 32) (hk : 0 < k) (hk3 : k ≤ 3) (hj : j < 4)
    (hpad : 4 ≤ j + k) : (wordBytes 4 (w &&& padMask k))[j]? = some 0 := by
  have hmask : (padMask k).toNat < 256 ^ (4 - k) := by
    have hcases : k = 1 ∨ k = 2 ∨ k = 3 := by omega
    rcases hcases with rfl | rfl | rfl <;> decide
  have hword : (w &&& padMask k).toNat < 256 ^ j := by
    rw [BitVec.toNat_and]
    refine Nat.lt_of_le_of_lt Nat.and_le_right (Nat.lt_of_lt_of_le hmask ?_)
    exact Nat.pow_le_pow_right (by omega) (by omega)
  unfold wordBytes
  rw [getElem?_toBytes, if_pos hj, Nat.div_eq_of_lt hword]
  rfl

/-- Claims the padded length. The bytes before the padding are still to be stored. -/
theorem claimInplace.spec {Q : Option Nat → Ctx W → Prop} {len : Nat} (l : Local c.parcel)
    (hlen : len ≤ INT32_MAX) (hroom : c.parcel.mDataPos + padSize len ≤ c.parcel.mDataCapacity)
    (hQ : ∀ c', Advanced c c' (padSize len) →
      Q (c'.parcel.place c.parcel.mDataPos) c') :
    wp (claimInplace len) Q E c := by
  have hpad := padSize_of_le hlen
  have hfin : c.parcel.mDataPos + padSize len ≤ INT32_MAX := Nat.le_trans hroom l.capacity
  unfold claimInplace
  simp only [wp_bind, wp_thisParcel, wp_ite, wp_pure]
  refine ⟨fun hne => ?_, fun heq => ?_⟩
  · have hin : c.parcel.mDataPos + padSize len - 4 + 4 ≤ c.parcel.cells.length := by
      rw [l.data]
      omega
    rw [wp_loadData hin, wp_storeData (by rwa [length_wordBytes])]
    rw [finishWrite.spec (c := c.mapParcel fun p => p.stored _ _) hfin]
    have a := stored_advanced (b := wordBytes 4 (bytesWord 32
      (window c.parcel.cells (c.parcel.mDataPos + padSize len - 4) 4) &&&
        padMask (padSize len - len))) l hroom
      (q := c.parcel.mDataPos + padSize len - 4) (by omega) (by rw [length_wordBytes]; omega)
    simpa only [Ctx.parcel_mapParcel, place_advance, place_stored] using hQ _ a
  · rw [finishWrite.spec hfin]
    have a := stored_advanced (b := []) l hroom (Nat.le_refl _) (Nat.le_add_right _ _)
    rw [stored_nil] at a
    exact hQ _ a

/-- `writeInplace` gives the place it claimed, or finds no room. Where there is no data at
all and none is asked for, the place it gives is NULL. -/
theorem writeInplace.spec {Q : Option Nat → Ctx W → Prop} {len : Nat} (l : Local c.parcel)
    (hok : ∀ c', len ≤ INT32_MAX → Advanced c c' (padSize len) →
      Q (c'.parcel.place c.parcel.mDataPos) c')
    (hfail : ∀ c', Kept c c' → (INT32_MAX < len ∨ INT32_MAX < padSize len ∨
      CannotGrow c (padSize len)) → Q none c') :
    wp (writeInplace x len) Q E c := by
  unfold writeInplace
  by_cases hbig : INT32_MAX < len
  · rw [if_pos hbig]
    exact hfail c (Kept.refl l) (.inl hbig)
  rw [if_neg hbig]
  have hlen : len ≤ INT32_MAX := Nat.le_of_not_lt hbig
  have hpad := padSize_of_le hlen
  have himax : INT32_MAX = 2 ^ 31 - 1 := rfl
  have hpos : c.parcel.mDataPos ≤ INT32_MAX := Nat.le_trans l.pos (Nat.le_trans l.size l.capacity)
  have hsz : sz (c.parcel.mDataPos + padSize len) = c.parcel.mDataPos + padSize len := by
    apply sz_of_le
    have : SIZE_MAX = 2 ^ 64 - 1 := rfl
    omega
  simp only [wp_bind, wp_thisParcel, hsz]
  rw [if_neg (by omega), wp_ite]
  refine ⟨fun hroom => claimInplace.spec l hlen hroom (fun c' => hok c' hlen), fun hfull => ?_⟩
  simp only [wp_bind, wp_ite, wp_pure]
  by_cases hpbig : INT32_MAX < padSize len
  · unfold growData
    rw [if_pos hpbig]
    exact ⟨fun he => absurd he (by decide), fun _ => hfail c (Kept.refl l) (.inr (.inl hpbig))⟩
  have hgrow := le_growthSize c.parcel.mDataSize (padSize len)
  have hl := l.pos
  have hs := l.size
  refine growData.room l (by omega) (Nat.le_of_not_lt hpbig) (by omega) ?_ ?_
  · intro c1 k he hroom
    refine ⟨fun _ => ?_, fun hne => absurd rfl hne⟩
    refine claimInplace.spec k.isLocal hlen (by rw [k.pos]; omega) (fun c2 a => ?_)
    rw [k.pos]
    exact hok c2 hlen (k.advanced he a)
  · intro err c1 hne k hno
    exact ⟨fun he => absurd he hne, fun _ => hfail c1 k (.inr (.inr hno))⟩

/-! ## The writes of single values -/

/-- Where there is a buffer, a place in it is not NULL. -/
theorem Local.place_eq {p : Parcel} (l : Local p) (h : 0 < p.mDataCapacity) (pos : Nat) :
    p.place pos = some pos := by
  unfold place
  rcases hd : p.mData with _ | b
  · have hcells : p.cells = [] := by
      unfold Parcel.cells
      rw [hd]
      rfl
    have hlen := l.data
    rw [hcells, List.length_nil] at hlen
    omega
  · rfl

/-- `Parcel_write` stores the blob, or finds no room. An empty blob in a parcel without a
buffer goes to a NULL place, and then the error of the parcel is returned. -/
theorem write.spec {Q : Int → Ctx W → Prop} {data : List UInt8} (l : Local c.parcel)
    (hok : ∀ r c', r = STATUS_OK ∨ r = c'.parcel.mError → data.length ≤ INT32_MAX →
      Advanced c c' (padSize data.length) →
      window c'.parcel.cells c.parcel.mDataPos data.length = data → Q r c')
    (hfail : ∀ r c', Kept c c' → (INT32_MAX < data.length ∨ INT32_MAX < padSize data.length ∨
      CannotGrow c (padSize data.length)) → Q r c') :
    wp (write x data) Q E c := by
  unfold write
  simp only [wp_ite, wp_pure]
  refine ⟨fun hbig => hfail _ c (Kept.refl l) (.inl hbig), fun _ => ?_⟩
  simp only [wp_bind]
  refine writeInplace.spec l (fun c1 hlen a => ?_) (fun c1 k hno => hfail _ c1 k hno)
  have hpad := padSize_of_le hlen
  rcases hp : c1.parcel.place c.parcel.mDataPos with _ | d
  · simp only [wp_bind, wp_thisParcel, wp_pure]
    have hcap : c1.parcel.mDataCapacity = 0 := by
      by_contra hne
      rw [a.isLocal.place_eq (by omega)] at hp
      cases hp
    have h0 : data = [] := by
      have h1 := a.isLocal.pos
      have h2 := a.isLocal.size
      rw [a.pos] at h1
      exact List.length_eq_zero_iff.mp (by omega)
    refine hok _ c1 (.inr rfl) hlen a ?_
    rw [h0, List.length_nil, window_zero]
  · have hd : d = c.parcel.mDataPos := by
      unfold place at hp
      rcases hm : c1.parcel.mData with _ | b
      · rw [hm] at hp
        cases hp
      · rw [hm] at hp
        exact (Option.some.inj hp).symm
    subst hd
    have hin : c.parcel.mDataPos + data.length ≤ c1.parcel.mDataCapacity := by
      have h1 := a.isLocal.pos
      have h2 := a.isLocal.size
      rw [a.pos] at h1
      omega
    simp only [wp_bind, wp_pure]
    rw [wp_storeData (by rwa [a.isLocal.data])]
    exact hok _ _ (.inl rfl) hlen (a.stored (Nat.le_refl _) (by omega))
      (a.isLocal.window_stored_same hin)

/-- Two writes in a row. -/
theorem Advanced.trans {m n : Nat} (a : Advanced c c' m) (b : Advanced c' c'' n) :
    Advanced c c'' (m + n) where
  isLocal := b.isLocal
  pos := by rw [b.pos, a.pos, Nat.add_assoc]
  size := by
    rw [b.size, a.size, a.pos]
    omega
  capacity := Nat.le_trans a.capacity b.capacity
  others := by
    intro q r hr hd
    rw [b.others q r (Nat.le_trans hr a.capacity) (by rw [a.pos]; omega),
      a.others q r hr (by omega)]
  objects := by rw [b.objects, a.objects]
  objectsSize := by rw [b.objectsSize, a.objectsSize]
  objectsCapacity := by rw [b.objectsCapacity, a.objectsCapacity]
  error := by rw [b.error, a.error]
  world := by rw [b.world, a.world]
  fresh := by rw [b.fresh, a.fresh]

/-- Why the string `str` can fail to be written from `c`. -/
def CannotWriteString (c : Ctx W) (len : Nat) : Prop :=
  CannotGrow c 4 ∨ ∃ c1, Advanced c c1 4 ∧
    (INT32_MAX < len + 1 ∨ INT32_MAX < padSize (len + 1) ∨ CannotGrow c1 (padSize (len + 1)))

/-- `Parcel_writeString16` stores the length, the text and a NUL. Or it finds no room for the
length, or none for the text behind it. -/
theorem writeString16.spec_parts {Q : Int → Ctx W → Prop} {str : BinderString} {text : List UInt8}
    (hstr : str.Carries text) (l : Local c.parcel)
    (hok : ∀ c', Advanced c c' (4 + padSize (text.length + 1)) →
      window c'.parcel.cells c.parcel.mDataPos 4 = wordBytes 4 (BitVec.ofNat 32 text.length) →
      window c'.parcel.cells (c.parcel.mDataPos + 4) (text.length + 1) = text ++ [0] →
      Q STATUS_OK c')
    (hlength : ∀ r c', r ≠ STATUS_OK → Kept c c' → CannotGrow c 4 → Q r c')
    (htext : ∀ c₁ c', Advanced c c₁ 4 → Kept c₁ c' → (INT32_MAX < text.length + 1 ∨
      INT32_MAX < padSize (text.length + 1) ∨ CannotGrow c₁ (padSize (text.length + 1))) →
      Q c'.parcel.mError c') :
    wp (writeString16 x (some str)) Q E c := by
  have hlen : text.length ≤ 64 := hstr.fits
  have hsz : sz (text.length + 1) = text.length + 1 := by
    apply sz_of_le
    have : SIZE_MAX = 2 ^ 64 - 1 := rfl
    omega
  unfold writeString16
  simp only [wp_bind, hstr.size, hsz]
  refine writeAligned.spec l (by simp) (by simp [INT32_MAX]) ?_ ?_
  · intro c1 a1 hw1
    rw [length_wordBytes] at a1 hw1
    simp only [if_true, wp_bind]
    refine writeInplace.spec a1.isLocal (fun c2 hle a2 => ?_) (fun c2 k hno => ?_)
    · have hpad := padSize_of_le hle
      have h1 := a2.isLocal.pos
      have h2 := a2.isLocal.size
      rw [a2.pos] at h1
      rw [a2.isLocal.place_eq (by omega)]
      have hin : c1.parcel.mDataPos + text.length ≤ c2.parcel.mDataCapacity := by omega
      have hcopy : (str.copyTo text.length : Prog (Ctx W) Fault _) = pure text := by
        unfold BinderString.copyTo
        rw [if_pos hstr.fits, hstr.bytes]
      simp only [wp_bind, hcopy, wp_pure]
      rw [wp_storeData (by rwa [a2.isLocal.data])]
      have a3 := a2.stored (Nat.le_refl _) (b := text) (by omega)
      have hin' : c1.parcel.mDataPos + text.length + [(0 : UInt8)].length ≤
          (c2.mapParcel fun p => p.stored c1.parcel.mDataPos text).parcel.mDataCapacity := by
        show c1.parcel.mDataPos + text.length + 1 ≤ c2.parcel.mDataCapacity
        omega
      rw [wp_storeData (by rwa [a3.isLocal.data])]
      have a4 := a3.stored (q := c1.parcel.mDataPos + text.length) (by omega) (b := [0])
        (by simp only [List.length_singleton]; omega)
      refine hok _ (a1.trans a4) ?_ ?_
      · have hp := a1.pos
        have hs := a1.isLocal.pos
        have hs' := a1.isLocal.size
        rw [a4.others _ 4 (by omega) (by omega), hw1]
      · rw [← a1.pos, window_append]
        have htext := a3.isLocal.window_stored (r := c1.parcel.mDataPos) (m := text.length) hin'
          (by omega)
        have hnul := a3.isLocal.window_stored_same hin'
        exact congrArg₂ _ (htext.trans (a2.isLocal.window_stored_same hin)) hnul
    · simp only [wp_bind, wp_thisParcel, wp_pure]
      exact htext c1 c2 a1 k hno
  · intro err c1 hne k hno
    rw [length_wordBytes] at hno
    simp only [if_neg hne, wp_pure]
    exact hlength err c1 hne k hno

/-- `Parcel_writeString16` stores the length, the text and a NUL, or finds no room. -/
theorem writeString16.spec {Q : Int → Ctx W → Prop} {str : BinderString} {text : List UInt8}
    (hstr : str.Carries text) (l : Local c.parcel)
    (hok : ∀ c', Advanced c c' (4 + padSize (text.length + 1)) →
      window c'.parcel.cells c.parcel.mDataPos 4 = wordBytes 4 (BitVec.ofNat 32 text.length) →
      window c'.parcel.cells (c.parcel.mDataPos + 4) (text.length + 1) = text ++ [0] →
      Q STATUS_OK c')
    (hfail : ∀ r c', Local c'.parcel → c'.world = c.world → c'.heap.fresh = c.heap.fresh →
      CannotWriteString c text.length → Q r c') :
    wp (writeString16 x (some str)) Q E c := by
  refine writeString16.spec_parts hstr l hok (fun r c' _ k hno => ?_) (fun c₁ c' a k hno => ?_)
  · exact hfail r c' k.isLocal k.world k.fresh (.inl hno)
  · exact hfail _ c' k.isLocal (k.world.trans a.world) (k.fresh.trans a.fresh) (.inr ⟨c₁, a, hno⟩)

end system_binder.Parcel
