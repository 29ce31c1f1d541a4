-- What each read does to a parcel, received or built locally, whose position
-- and size lie inside its data.
import SystemBinder.ParcelData

open prog memory

namespace system_binder.Parcel

variable {W : Type} {c : Ctx W} {E : Fault → Prop}

/-- `PTRDIFF_MAX`: no object in memory is larger. -/
def PTRDIFF_MAX : Nat := 2 ^ 63 - 1

/-- A parcel whose position is inside its data and whose data is in memory. -/
structure Readable (p : Parcel) : Prop where
  pos : p.mDataPos ≤ p.mDataSize
  data : p.mDataSize ≤ p.cells.length
  fits : p.cells.length ≤ PTRDIFF_MAX

namespace Readable

/-- Positions around the data do not wrap. -/
theorem sz_pos {p : Parcel} (r : Readable p) {n : Nat} (hn : n ≤ 2 ^ 32) :
    sz (p.mDataPos + n) = p.mDataPos + n := by
  have h1 := r.pos
  have h2 := r.data
  have h3 := r.fits
  unfold PTRDIFF_MAX at h3
  unfold sz
  exact Nat.mod_eq_of_lt (by omega)

theorem skip {p : Parcel} (r : Readable p) {n : Nat} (hn : n ≤ 2 ^ 32)
    (h : p.mDataPos + n ≤ p.mDataSize) : Readable (Parcel.skip n p) where
  pos := by
    show sz (p.mDataPos + n) ≤ p.mDataSize
    rwa [r.sz_pos hn]
  data := r.data
  fits := r.fits

/-- Where there is data to read, a place in it is not NULL. -/
theorem place_eq {p : Parcel} (r : Readable p) (h : 0 < p.mDataSize) (pos : Nat) :
    p.place pos = some pos := by
  unfold place
  rcases hd : p.mData with _ | b
  · have hcells : p.cells = [] := by
      unfold Parcel.cells
      rw [hd]
      rfl
    have hlen := r.data
    rw [hcells, List.length_nil] at hlen
    omega
  · rfl

end Readable

theorem padSize_eq {n : Nat} (h : n ≤ INT32_MAX) : padSize n = (n + 3) / 4 * 4 := by
  unfold INT32_MAX at h
  unfold padSize sz
  rw [Nat.mod_eq_of_lt (by omega)]

theorem padSize_bounds {n : Nat} (h : n ≤ INT32_MAX) : n ≤ padSize n ∧ padSize n ≤ 2 ^ 32 := by
  rw [padSize_eq h]
  unfold INT32_MAX at h
  omega

/-! ## Words and blobs -/

theorem readAligned.spec {Q : Int × List UInt8 → Ctx W → Prop} {pArg : List UInt8} {n : Nat}
    (r : Readable c.parcel) (hn : n ≤ 2 ^ 32) :
    wp (readAligned pArg n) Q E c ↔
      if c.parcel.mDataPos + n ≤ c.parcel.mDataSize
      then Q (STATUS_OK, window c.parcel.cells c.parcel.mDataPos n) (c.mapParcel (skip n))
      else Q (STATUS_NOT_ENOUGH_DATA, pArg) c := by
  have hsz := r.sz_pos hn
  unfold readAligned
  simp only [wp_bind, wp_thisParcel, hsz, wp_ite, wp_pure]
  split
  · rename_i h
    have hin := Nat.le_trans h r.data
    simp only [h, wp_loadData hin, wp_update, forall_const, not_true_eq_false, false_implies,
      and_true]
  · rename_i h
    simp only [h, false_implies, not_false_eq_true, forall_const, true_and]

theorem readInt32.spec {Q : Int × BitVec 32 → Ctx W → Prop} {pArg : BitVec 32}
    (r : Readable c.parcel) :
    wp (readInt32 pArg) Q E c ↔
      if c.parcel.mDataPos + 4 ≤ c.parcel.mDataSize
      then Q (STATUS_OK, bytesWord 32 (window c.parcel.cells c.parcel.mDataPos 4))
        (c.mapParcel (skip 4))
      else Q (STATUS_NOT_ENOUGH_DATA, pArg) c := by
  unfold readInt32
  simp only [wp_bind, readAligned.spec r (by omega : 4 ≤ 2 ^ 32), wp_pure,
    bytesWord_wordBytes (by rfl : 32 = 8 * 4)]

theorem readPointer.spec {Q : BitVec 64 → Ctx W → Prop} (r : Readable c.parcel) :
    wp readPointer Q E c ↔
      if c.parcel.mDataPos + 8 ≤ c.parcel.mDataSize
      then Q (bytesWord 64 (window c.parcel.cells c.parcel.mDataPos 8)) (c.mapParcel (skip 8))
      else Q 0 c := by
  unfold readPointer
  simp only [wp_bind, readAligned.spec r (by omega : 8 ≤ 2 ^ 32)]
  split
  · simp only [ne_eq, not_true_eq_false, if_false, wp_pure]
  · exact wp_pure _

theorem readBool.spec {Q : Int × Bool → Ctx W → Prop} (r : Readable c.parcel) :
    wp readBool Q E c ↔
      if c.parcel.mDataPos + 4 ≤ c.parcel.mDataSize
      then Q (STATUS_OK, bytesWord 32 (window c.parcel.cells c.parcel.mDataPos 4) != 0)
        (c.mapParcel (skip 4))
      else Q (STATUS_NOT_ENOUGH_DATA, false) c := by
  unfold readBool
  simp only [wp_bind, readInt32.spec r, wp_pure, bne_self_eq_false]

theorem read.spec {Q : Int × List UInt8 → Ctx W → Prop} {outData : List UInt8} {len : Nat}
    (r : Readable c.parcel) :
    wp (read outData len) Q E c ↔
      if INT32_MAX < len then Q (STATUS_BAD_VALUE, outData) c
      else if c.parcel.mDataPos + padSize len ≤ c.parcel.mDataSize
      then Q (STATUS_OK, window c.parcel.cells c.parcel.mDataPos len)
        (c.mapParcel (skip (padSize len)))
      else Q (STATUS_NOT_ENOUGH_DATA, outData) c := by
  unfold read
  split
  · exact Iff.rfl
  · rename_i hbig
    obtain ⟨hle, hpad⟩ := padSize_bounds (Nat.le_of_not_lt hbig)
    have hsz := r.sz_pos hpad
    simp only [wp_bind, wp_thisParcel, hsz, Nat.le_add_right, hle, true_and, and_true, wp_ite,
      wp_pure]
    split
    · rename_i h
      have hin : c.parcel.mDataPos + len ≤ c.parcel.cells.length := by
        have := r.data
        omega
      simp only [h, wp_loadData hin, wp_update, forall_const, not_true_eq_false, false_implies,
        and_true]
    · rename_i h
      simp only [h, false_implies, not_false_eq_true, forall_const, true_and]

theorem readInplace.spec {Q : Option Nat → Ctx W → Prop} {len : Nat} (r : Readable c.parcel) :
    wp (readInplace len) Q E c ↔
      if INT32_MAX < len then Q none c
      else if c.parcel.mDataPos + padSize len ≤ c.parcel.mDataSize
      then Q (c.parcel.place c.parcel.mDataPos) (c.mapParcel (skip (padSize len)))
      else Q none c := by
  unfold readInplace
  split
  · exact Iff.rfl
  · rename_i hbig
    obtain ⟨hle, hpad⟩ := padSize_bounds (Nat.le_of_not_lt hbig)
    have hsz := r.sz_pos hpad
    simp only [wp_bind, wp_thisParcel, hsz, Nat.le_add_right, hle, true_and, and_true, wp_ite,
      wp_pure, wp_update]
    split
    · rename_i h
      simp only [h, forall_const, not_true_eq_false, false_implies, and_true]
    · rename_i h
      simp only [h, false_implies, not_false_eq_true, forall_const, true_and]

/-- What does not fit is NULL. -/
theorem readInplace.spec_short {Q : Option Nat → Ctx W → Prop} {len : Nat}
    (r : Readable c.parcel)
    (h : INT32_MAX < len ∨ c.parcel.mDataSize < c.parcel.mDataPos + padSize len) :
    wp (readInplace len) Q E c ↔ Q none c := by
  rw [readInplace.spec r]
  split
  · exact Iff.rfl
  · rw [if_neg (by omega)]

/-! ## Strings -/

/-- The length word of the string at the position. -/
def stringLength (p : Parcel) : BitVec 32 := bytesWord 32 (window p.cells p.mDataPos 4)

/-- A whole string stands at the position: its length word is a length, and the padded text
with its NUL is inside the data. -/
def StringInside (p : Parcel) : Prop :=
  p.mDataPos + 4 ≤ p.mDataSize ∧ 0 ≤ (stringLength p).toInt ∧ (stringLength p).toInt < INT32_MAX ∧
    p.mDataPos + 4 + padSize ((stringLength p).toNat + 1) ≤ p.mDataSize

/-- The byte after the text of the string at the position is NUL. -/
def Terminated (p : Parcel) : Prop :=
  window p.cells (p.mDataPos + 4 + (stringLength p).toNat) 1 = [0]

instance (p : Parcel) : Decidable (StringInside p) := by
  unfold StringInside
  infer_instance

instance (p : Parcel) : Decidable (Terminated p) := by
  unfold Terminated
  infer_instance

/-- A length word that is no negative number is its own length. -/
theorem toNat_of_nonneg {v : BitVec 32} (h : 0 ≤ v.toInt) : v.toNat < 2 ^ 31 := by
  rw [BitVec.toInt_eq_toNat_cond] at h
  split at h
  · omega
  · have := v.isLt
    omega

/-- The encoding of a string stands at the position, inside the data. -/
structure StringStands (p : Parcel) (text : List UInt8) : Prop where
  length : window p.cells p.mDataPos 4 = wordBytes 4 (BitVec.ofNat 32 text.length)
  bytes : window p.cells (p.mDataPos + 4) (text.length + 1) = text ++ [0]
  inside : p.mDataPos + 4 + (text.length + 1 + 3) / 4 * 4 ≤ p.mDataSize
  fits : text.length ≤ 2 ^ 30

namespace StringStands

variable {p : Parcel} {text : List UInt8}

theorem toNat_length (h : StringStands p text) : (stringLength p).toNat = text.length := by
  have hfits := h.fits
  unfold stringLength
  rw [h.length, bytesWord_wordBytes (by rfl : 32 = 8 * 4), BitVec.toNat_ofNat,
    Nat.mod_eq_of_lt (by omega)]

theorem stringInside (h : StringStands p text) : StringInside p := by
  have hfits := h.fits
  have hin := h.inside
  have hnat := h.toNat_length
  have hint : (stringLength p).toInt = text.length := by
    rw [BitVec.toInt_eq_toNat_of_lt (by omega), hnat]
  have hpad : padSize (text.length + 1) = (text.length + 1 + 3) / 4 * 4 :=
    padSize_eq (by unfold INT32_MAX; omega)
  refine ⟨by omega, by omega, ?_, by rw [hnat]; omega⟩
  rw [hint]
  unfold INT32_MAX
  omega

theorem nul (h : StringStands p text) :
    window p.cells (p.mDataPos + 4 + text.length) 1 = [0] := by
  rw [← window_window (n := text.length + 1) (by omega), h.bytes]
  unfold window
  simp

theorem terminated (h : StringStands p text) : Terminated p := by
  unfold Terminated
  rw [h.toNat_length]
  exact h.nul

end StringStands

/-- A string that is not whole is read as NULL. A whole one must be terminated, or the
process exits. -/
theorem readString8Inplace.spec {Q : Option Nat × Nat → Ctx W → Prop} (r : Readable c.parcel) :
    wp readString8Inplace Q E c ↔
      if StringInside c.parcel then
        if Terminated c.parcel then
          Q (some (c.parcel.mDataPos + 4), (stringLength c.parcel).toNat)
            ((c.mapHeap Heap.nextLocal).mapParcel fun p =>
              skip (padSize ((stringLength c.parcel).toNat + 1)) (skip 4 p))
        else E (.logFatal "172655291")
      else Q (none, 0) ((c.mapHeap Heap.nextLocal).mapParcel fun p =>
        if c.parcel.mDataPos + 4 ≤ c.parcel.mDataSize then skip 4 p else p) := by
  unfold readString8Inplace
  simp only [wp_bind, wp_indeterminate]
  rw [readInt32.spec (c := c.mapHeap Heap.nextLocal) r]
  simp only [Ctx.parcel_mapHeap]
  have hword : bytesWord 32 (window c.parcel.cells c.parcel.mDataPos 4) =
      stringLength c.parcel := rfl
  by_cases h4 : c.parcel.mDataPos + 4 ≤ c.parcel.mDataSize
  · have r4 := r.skip (by omega : 4 ≤ 2 ^ 32) h4
    have hpos : (skip 4 c.parcel).mDataPos = c.parcel.mDataPos + 4 := r.sz_pos (by omega)
    simp only [if_pos h4, hword]
    by_cases hlen : 0 ≤ (stringLength c.parcel).toInt ∧ (stringLength c.parcel).toInt < INT32_MAX
    · have hsmall : (stringLength c.parcel).toNat + 1 ≤ INT32_MAX := by
        have hnat := toNat_of_nonneg hlen.1
        have hint := hlen.2
        rw [BitVec.toInt_eq_toNat_of_lt (by omega)] at hint
        omega
      simp only [if_pos hlen, wp_bind]
      rw [readInplace.spec (c := (c.mapHeap Heap.nextLocal).mapParcel (skip 4)) r4,
        if_neg (by omega)]
      simp only [Ctx.parcel_mapParcel, Ctx.parcel_mapHeap, hpos, mDataSize_skip]
      by_cases hin : c.parcel.mDataPos + 4 + padSize ((stringLength c.parcel).toNat + 1) ≤
          c.parcel.mDataSize
      · have hinside : StringInside c.parcel := ⟨h4, hlen.1, hlen.2, hin⟩
        have hload : c.parcel.mDataPos + 4 + (stringLength c.parcel).toNat + 1 ≤
            c.parcel.cells.length := by
          have := (padSize_bounds hsmall).1
          have := r.data
          omega
        rw [if_pos hinside, if_pos hin, r4.place_eq (by show 0 < c.parcel.mDataSize; omega)]
        simp only [wp_bind]
        rw [wp_loadData (c := ((c.mapHeap Heap.nextLocal).mapParcel (skip 4)).mapParcel (skip _))
          hload]
        by_cases hz : Terminated c.parcel
        · rw [if_pos hz]
          simp only [wp_ite]
          exact ⟨fun h => h.1 hz, fun h => ⟨fun _ => h, fun hn => absurd hz hn⟩⟩
        · rw [if_neg hz]
          simp only [wp_ite]
          exact ⟨fun h => h.2 hz, fun h => ⟨fun hy => absurd hy hz, fun _ => h⟩⟩
      · have hout : ¬StringInside c.parcel := fun h => hin h.2.2.2
        rw [if_neg hout, if_neg hin]
        exact Iff.rfl
    · have hout : ¬StringInside c.parcel := fun h => hlen ⟨h.2.1, h.2.2.1⟩
      rw [if_neg hout]
      simp only [if_neg hlen, wp_pure]
  · -- the length is whatever the variable held, and no length fits into less than 4 bytes
    have hout : ¬StringInside c.parcel := fun h => h4 h.1
    rw [if_neg hout]
    simp only [if_neg h4]
    have hid : (c.mapHeap Heap.nextLocal).mapParcel (fun p => p) = c.mapHeap Heap.nextLocal := rfl
    rw [hid, wp_ite]
    generalize c.heap.leftover c.heap.locals = size
    have hpad : INT32_MAX < size.toNat + 1 ∨
        c.parcel.mDataSize < c.parcel.mDataPos + padSize (size.toNat + 1) := by
      by_cases hbig : INT32_MAX < size.toNat + 1
      · exact .inl hbig
      · have := padSize_eq (Nat.le_of_not_lt hbig)
        right
        omega
    rw [wp_bind, readInplace.spec_short (c := c.mapHeap Heap.nextLocal) r hpad]
    exact ⟨fun h => by_cases (fun hs => h.1 hs) (fun hs => h.2 hs), fun h => ⟨fun _ => h, fun _ => h⟩⟩

theorem readString16.spec {Q : Option Nat → Ctx W → Prop} (r : Readable c.parcel) :
    wp readString16 Q E c ↔
      if StringInside c.parcel then
        if Terminated c.parcel then
          Q (some (c.parcel.mDataPos + 4)) ((c.mapHeap Heap.nextLocal).mapParcel fun p =>
            skip (padSize ((stringLength c.parcel).toNat + 1)) (skip 4 p))
        else E (.logFatal "172655291")
      else Q none ((c.mapHeap Heap.nextLocal).mapParcel fun p =>
        if c.parcel.mDataPos + 4 ≤ c.parcel.mDataSize then skip 4 p else p) := by
  unfold readString16
  simp only [wp_bind, readString8Inplace.spec r, wp_pure]

/-- The text at a place in the data: all up to the first NUL. -/
def textAt (cells : List UInt8) (str : Nat) : List UInt8 := (cells.drop str).takeWhile (· ≠ 0)

theorem getElem?_of_window {cells : List UInt8} {pos : Nat} {b : UInt8}
    (h : window cells pos 1 = [b]) : cells[pos]? = some b := by
  have := congrArg (fun l => l[0]?) h
  simpa [getElem?_window] using this

/-- A NUL ends the text at the latest there. -/
theorem length_textAt_le {cells : List UInt8} {str n : Nat} (h : window cells (str + n) 1 = [0]) :
    (textAt cells str).length ≤ n := by
  unfold textAt
  by_contra hlt
  have hn : n < ((cells.drop str).takeWhile (· ≠ 0)).length := Nat.lt_of_not_le hlt
  have hget := getElem?_of_window h
  have hmem := List.getElem_mem hn
  have heq := List.IsPrefix.getElem (List.takeWhile_prefix (l := cells.drop str) (· ≠ 0)) hn
  have hdrop : (cells.drop str)[n]? = some 0 := by rw [List.getElem?_drop, hget]
  rw [List.getElem?_eq_some_iff] at hdrop
  rw [heq, hdrop.2] at hmem
  have := List.mem_takeWhile_imp hmem
  simp at this

theorem loadText.spec {Q : List UInt8 → Ctx W → Prop} {str n : Nat}
    (h : window c.parcel.cells (str + n) 1 = [0]) :
    wp (loadText str) Q E c ↔ Q (textAt c.parcel.cells str) c := by
  have hle := length_textAt_le h
  have hin : str + n < c.parcel.cells.length :=
    (List.getElem?_eq_some_iff.mp (getElem?_of_window h)).1
  unfold wp loadText
  unfold textAt at hle
  unfold textAt Parcel.cells at *
  rcases hd : c.parcel.mData with _ | b
  · rw [hd] at hin
    simp at hin
  · rw [hd] at hin hle
    simp only [Option.map_some, Option.getD_some] at hin hle ⊢
    rw [if_pos (by omega)]

/-- A whole string that is terminated gives its text. Any other is refused, or it exits
the process. -/
theorem readString16_to.spec {Q : Int × BinderString → Ctx W → Prop} {pArg : BinderString}
    (r : Readable c.parcel) :
    wp (readString16_to pArg) Q E c ↔
      if StringInside c.parcel then
        if Terminated c.parcel then
          Q (STATUS_OK, pArg.init (some (textAt c.parcel.cells (c.parcel.mDataPos + 4))))
            ((c.mapHeap Heap.nextLocal).mapParcel fun p =>
              skip (padSize ((stringLength c.parcel).toNat + 1)) (skip 4 p))
        else E (.logFatal "172655291")
      else Q (STATUS_BAD_VALUE, pArg) ((c.mapHeap Heap.nextLocal).mapParcel fun p =>
        if c.parcel.mDataPos + 4 ≤ c.parcel.mDataSize then skip 4 p else p) := by
  unfold readString16_to
  simp only [wp_bind, readString16.spec r, wp_pure]
  split
  · split
    · rename_i hz
      rw [loadText.spec (c := (c.mapHeap Heap.nextLocal).mapParcel fun p =>
        skip (padSize ((stringLength c.parcel).toNat + 1)) (skip 4 p)) hz]
      exact Iff.rfl
    · exact Iff.rfl
  · exact Iff.rfl

/-- A text with its NUL behind it is what stands there. -/
theorem textAt_eq {cells text : List UInt8} {str : Nat} (h0 : 0 ∉ text)
    (h : window cells str (text.length + 1) = text ++ [0]) : textAt cells str = text := by
  have hsplit : cells.drop str = (text ++ [0]) ++ (cells.drop str).drop (text.length + 1) := by
    rw [← h]
    exact (List.take_append_drop _ _).symm
  unfold textAt
  rw [hsplit, List.append_assoc, List.takeWhile_append_of_pos]
  · simp
  · intro b hb
    simp only [decide_eq_true_eq]
    rintro rfl
    exact h0 hb

end system_binder.Parcel
