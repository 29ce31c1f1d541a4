-- The round trip of the Parcel: what was written in order into a fresh parcel
-- is read back in order, whatever the values and wherever the buffer had to grow.
import SystemBinder.ParcelRead
import SystemBinder.ParcelWrite

open prog memory

namespace system_binder.Parcel

variable {W : Type} {x : Outside W} {c c' : Ctx W} {E : Fault → Prop}

/-! ## Values -/

/-- A value that can be written. -/
inductive Value
  | int32 (val : BitVec 32)
  | bool (val : Bool)
  | pointer (val : BitVec 64)
  | blob (data : List UInt8)
  | string (str : BinderString)
  | nullString

/-- A value that was read. -/
inductive Got
  | int32 (val : BitVec 32)
  | bool (val : Bool)
  | pointer (val : BitVec 64)
  | blob (data : List UInt8)
  | text (text : List UInt8)
  | null
deriving DecidableEq

namespace Value

/-- A string is well formed: it holds a text of at most 63 bytes. -/
def WellFormed : Value → Prop
  | .string str => ∃ text, str.Holds text
  | _ => True

/-- What a read of the same kind must give. -/
def expected : Value → Got
  | .int32 val => .int32 val
  | .bool val => .bool val
  | .pointer val => .pointer val
  | .blob data => .blob data
  | .string str => .text (str.mData.take str.mSize)
  | .nullString => .null

/-- How many bytes a value takes, with its padding. -/
def encodedSize : Value → Nat
  | .int32 _ | .bool _ | .nullString => 4
  | .pointer _ => 8
  | .blob data => (data.length + 3) / 4 * 4
  | .string str => 4 + (str.mSize + 1 + 3) / 4 * 4

end Value

/-- The size of several values. -/
def totalSize (vs : List Value) : Nat := (vs.map Value.encodedSize).sum

/-- The write of a value. -/
def writeValue (x : Outside W) : Value → Prog (Ctx W) Fault Int
  | .int32 val => writeInt32 x val
  | .bool val => writeBool x val
  | .pointer val => writePointer x val
  | .blob data => write x data
  | .string str => writeString16 x (some str)
  | .nullString => writeString16 x none

/-- The read that matches a value, with its status. Where the source returns none, it is OK. -/
def readValue : Value → Prog (Ctx W) Fault (Int × Got)
  | .int32 _ => do
    let old ← indeterminate
    let (status, val) ← readInt32 old
    pure (status, .int32 val)
  | .bool _ => do
    let (status, val) ← readBool
    pure (status, .bool val)
  | .pointer _ => do
    let val ← readPointer
    pure (STATUS_OK, .pointer val)
  | .blob data => do
    let (status, bs) ← read [] data.length
    pure (status, .blob bs)
  | .string _ | .nullString => do
    match ← readString16 with
    | some str => do
      let text ← loadText str
      pure (STATUS_OK, .text text)
    | none => pure (STATUS_OK, .null)

def writeAll (x : Outside W) : List Value → Prog (Ctx W) Fault (List Int)
  | [] => pure []
  | v :: vs => do
    let status ← writeValue x v
    let rest ← writeAll x vs
    pure (status :: rest)

def readAll : List Value → Prog (Ctx W) Fault (List (Int × Got))
  | [] => pure []
  | v :: vs => do
    let got ← readValue v
    let rest ← readAll vs
    pure (got :: rest)

/-- Writes the values into a fresh parcel, goes back to its start and reads them. -/
def roundTrip (x : Outside W) (vs : List Value) :
    Prog (Ctx W) Fault (List Int × List (Int × Got)) := do
  initState
  let written ← writeAll x vs
  setDataPosition 0
  let read ← readAll vs
  pure (written, read)

/-! ## What stands in the data -/

/-- The value stands at `pos`. The padding of a blob may be anything. -/
def Encodes (cells : List UInt8) (pos : Nat) : Value → Prop
  | .int32 val => window cells pos 4 = wordBytes 4 val
  | .bool val => window cells pos 4 = wordBytes 4 (if val then (1 : BitVec 32) else 0)
  | .pointer val => window cells pos 8 = wordBytes 8 val
  | .blob data => window cells pos data.length = data
  | .string str => ∃ text, str.Holds text ∧
      window cells pos 4 = wordBytes 4 (BitVec.ofNat 32 text.length) ∧
      window cells (pos + 4) (text.length + 1) = text ++ [0]
  | .nullString => window cells pos 4 = wordBytes 4 (-1 : BitVec 32)

/-- The values stand one after the other from `pos` on. -/
def EncodesAll (cells : List UInt8) : Nat → List Value → Prop
  | _, [] => True
  | pos, v :: vs => Encodes cells pos v ∧ EncodesAll cells (pos + v.encodedSize) vs

/-- A value stays where it is as long as nothing is stored into its bytes. -/
theorem Encodes.congr {cells cells' : List UInt8} {pos : Nat} {v : Value}
    (h : Encodes cells pos v)
    (hw : ∀ q m, pos ≤ q → q + m ≤ pos + v.encodedSize → window cells' q m = window cells q m) :
    Encodes cells' pos v := by
  cases v with
  | int32 val => exact (hw pos 4 (Nat.le_refl _) (Nat.le_refl _)).trans h
  | bool val => exact (hw pos 4 (Nat.le_refl _) (Nat.le_refl _)).trans h
  | pointer val => exact (hw pos 8 (Nat.le_refl _) (Nat.le_refl _)).trans h
  | blob data =>
    refine (hw pos data.length (Nat.le_refl _) ?_).trans h
    simp only [Value.encodedSize]
    omega
  | string str =>
    obtain ⟨text, hstr, hlen, htext⟩ := h
    have hsize := hstr.size
    refine ⟨text, hstr, (hw pos 4 (Nat.le_refl _) ?_).trans hlen,
      (hw (pos + 4) _ (by omega) ?_).trans htext⟩
    · simp only [Value.encodedSize]
      omega
    · simp only [Value.encodedSize]
      omega
  | nullString => exact (hw pos 4 (Nat.le_refl _) (Nat.le_refl _)).trans h

/-! ## Writing -/

/-- No request to the allocator fails. -/
def Ample (h : Heap) : Prop := ∀ r, h.fresh r ≠ none

/-- With memory to be had and the data below 2^30 bytes, the formula stays in its limit. -/
theorem can_grow {len : Nat} (ha : Ample c.heap) (h : c.parcel.mDataSize + len ≤ 2 ^ 30) :
    ¬CannotGrow c len := by
  rintro (hbig | hnone)
  · unfold growthSize INT32_MAX at hbig
    omega
  · exact ha _ hnone

/-- What the write of one value leaves behind. -/
def Wrote (c : Ctx W) (v : Value) (r : Int) (c' : Ctx W) : Prop :=
  r = STATUS_OK ∧ Advanced c c' v.encodedSize ∧ Encodes c'.parcel.cells c.parcel.mDataPos v

section Writing

variable (l : Local c.parcel) (ha : Ample c.heap) (hend : c.parcel.mDataPos = c.parcel.mDataSize)

include l ha hend

theorem wrote_word {bs : List UInt8} {v : Value} (hlen : bs.length = v.encodedSize)
    (h0 : 0 < bs.length) (hsmall : c.parcel.mDataPos + bs.length ≤ 2 ^ 30)
    (henc : ∀ cells, window cells c.parcel.mDataPos bs.length = bs →
      Encodes cells c.parcel.mDataPos v) :
    wp (writeAligned x bs) (Wrote c v) E c := by
  refine writeAligned.spec l h0 (by unfold INT32_MAX; omega) (fun c1 a hw => ?_)
    (fun err c1 _ _ hno => absurd hno (can_grow ha (by omega)))
  exact ⟨rfl, hlen ▸ a, henc _ hw⟩

theorem writeValue.spec (v : Value) (hv : v.WellFormed) (he : c.parcel.mError = STATUS_OK)
    (hfit : c.parcel.mDataPos + v.encodedSize ≤ 2 ^ 30) :
    wp (writeValue x v) (Wrote c v) E c := by
  cases v with
  | int32 val =>
    exact wrote_word l ha hend (length_wordBytes 4 val) (by simp)
      (by rwa [length_wordBytes]) (fun _ hw => by rwa [length_wordBytes] at hw)
  | bool val =>
    exact wrote_word l ha hend (length_wordBytes 4 _) (by simp)
      (by rwa [length_wordBytes]) (fun _ hw => by rwa [length_wordBytes] at hw)
  | pointer val =>
    exact wrote_word l ha hend (length_wordBytes 8 val) (by simp)
      (by rwa [length_wordBytes]) (fun _ hw => by rwa [length_wordBytes] at hw)
  | nullString =>
    exact wrote_word l ha hend (length_wordBytes 4 _) (by simp)
      (by rwa [length_wordBytes]) (fun _ hw => by rwa [length_wordBytes] at hw)
  | blob data =>
    simp only [Value.encodedSize] at hfit
    have hlen : data.length ≤ INT32_MAX := by
      unfold INT32_MAX
      omega
    have hpad := padSize_of_le hlen
    refine write.spec l (fun r c1 hr _ a hw => ?_) (fun r c1 _ hno => ?_)
    · refine ⟨hr.elim id (fun h => by rw [h, a.error, he]), ?_, hw⟩
      rw [Value.encodedSize, ← hpad]
      exact a
    · exfalso
      rcases hno with h | h | h
      · omega
      · unfold INT32_MAX at h
        omega
      · exact can_grow ha (by omega) h
  | string str =>
    obtain ⟨text, hstr⟩ := hv
    have hsize := hstr.size
    have hfits := hstr.fits
    simp only [Value.encodedSize, hsize] at hfit
    have hpad : padSize (text.length + 1) = (text.length + 1 + 3) / 4 * 4 :=
      padSize_of_le (by unfold INT32_MAX; omega)
    refine writeString16.spec hstr.carries l (fun c1 a hlen htext => ?_) (fun r c1 _ _ _ hno => ?_)
    · refine ⟨rfl, ?_, text, hstr, hlen, htext⟩
      rw [Value.encodedSize, hsize, ← hpad]
      exact a
    · exfalso
      rcases hno with h | ⟨c1, a, h | h | h⟩
      · exact can_grow ha (by omega) h
      · unfold INT32_MAX at h
        omega
      · unfold INT32_MAX at h
        omega
      · refine can_grow (c := c1) (by unfold Ample; rw [a.fresh]; exact ha) ?_ h
        rw [a.size]
        omega

end Writing

/-- Nothing was written. -/
theorem Advanced.refl (l : Local c.parcel) : Advanced c c 0 where
  isLocal := l
  pos := rfl
  size := (Nat.max_eq_left l.pos).symm
  capacity := Nat.le_refl _
  others := fun _ _ _ _ => rfl
  objects := rfl
  objectsSize := rfl
  objectsCapacity := rfl
  error := rfl
  world := rfl
  fresh := rfl

/-- All writes succeed and leave the values one after the other. -/
theorem writeAll.spec (vs : List Value) (l : Local c.parcel) (ha : Ample c.heap)
    (hend : c.parcel.mDataPos = c.parcel.mDataSize) (he : c.parcel.mError = STATUS_OK)
    (hv : ∀ v ∈ vs, v.WellFormed) (hfit : c.parcel.mDataPos + totalSize vs ≤ 2 ^ 30) :
    wp (writeAll x vs) (fun rs c' => (∀ r ∈ rs, r = STATUS_OK) ∧ rs.length = vs.length ∧
      Advanced c c' (totalSize vs) ∧ EncodesAll c'.parcel.cells c.parcel.mDataPos vs) E c := by
  induction vs generalizing c with
  | nil => exact ⟨by simp, rfl, Advanced.refl l, trivial⟩
  | cons v vs ih =>
    have htotal : totalSize (v :: vs) = v.encodedSize + totalSize vs := by
      simp only [totalSize, List.map_cons, List.sum_cons]
    rw [htotal] at hfit
    unfold writeAll
    simp only [wp_bind, wp_pure]
    refine wp_imp (writeValue.spec l ha hend v (hv v (by simp)) he (by omega)) ?_
    rintro r c1 ⟨hr, a, henc⟩
    have hp1 := a.pos
    have hs1 := a.size
    have hrest := ih (c := c1) a.isLocal (by unfold Ample; rw [a.fresh]; exact ha) (by omega)
      (by rw [a.error, he]) (fun w hw => hv w (by simp [hw])) (by omega)
    refine wp_imp hrest ?_
    rintro rs c2 ⟨hrs, hlen, b, hencs⟩
    refine ⟨?_, by simp [hlen], ?_, ?_, ?_⟩
    · intro r' hr'
      rcases List.mem_cons.mp hr' with rfl | hr'
      · exact hr
      · exact hrs r' hr'
    · rw [htotal]
      exact a.trans b
    · have hcap := a.isLocal.size
      have hin := a.isLocal.pos
      exact henc.congr (fun q m _ hq => b.others q m (by omega) (by omega))
    · rwa [hp1] at hencs

/-! ## Reading -/

/-- A parcel that was built locally can be read. -/
theorem Local.readable {p : Parcel} (l : Local p) : Readable p where
  pos := l.pos
  data := by
    rw [l.data]
    exact l.size
  fits := by
    rw [l.data]
    exact Nat.le_trans l.capacity (by decide)

/-- `c'` is `c` with the position `n` bytes further. -/
def ReadOver (c : Ctx W) (n : Nat) (c' : Ctx W) : Prop :=
  c'.parcel = { c.parcel with mDataPos := c.parcel.mDataPos + n }

theorem skip_readOver {n : Nat} (r : Readable c.parcel) (hn : n ≤ 2 ^ 32)
    (hp : c'.parcel = skip n c.parcel) : ReadOver c n c' := by
  unfold ReadOver
  rw [hp, skip, r.sz_pos hn]

/-- The value that stands at the position is read, with an OK status. -/
theorem readValue.spec (v : Value) (r : Readable c.parcel)
    (henc : Encodes c.parcel.cells c.parcel.mDataPos v)
    (hin : c.parcel.mDataPos + v.encodedSize ≤ c.parcel.mDataSize)
    (hfit : v.encodedSize ≤ 2 ^ 30) :
    wp (readValue v) (fun got c' => got = (STATUS_OK, v.expected) ∧
      ReadOver c v.encodedSize c') E c := by
  cases v with
  | int32 val =>
    have hw : window c.parcel.cells c.parcel.mDataPos 4 = wordBytes 4 val := henc
    have h4 : c.parcel.mDataPos + 4 ≤ c.parcel.mDataSize := hin
    unfold readValue
    simp only [wp_bind, wp_indeterminate]
    rw [readInt32.spec (c := c.mapHeap Heap.nextLocal) r]
    simp only [Ctx.parcel_mapHeap, if_pos h4, wp_pure, hw, bytesWord_wordBytes (by rfl : 32 = 8 * 4)]
    exact ⟨rfl, skip_readOver r (by omega) rfl⟩
  | bool val =>
    have hw : window c.parcel.cells c.parcel.mDataPos 4 =
      wordBytes 4 (if val then (1 : BitVec 32) else 0) := henc
    have h4 : c.parcel.mDataPos + 4 ≤ c.parcel.mDataSize := hin
    unfold readValue
    simp only [wp_bind]
    rw [readBool.spec r, if_pos h4]
    simp only [wp_pure, hw, bytesWord_wordBytes (by rfl : 32 = 8 * 4)]
    refine ⟨?_, skip_readOver r (by omega) rfl⟩
    rcases val with _ | _ <;> rfl
  | pointer val =>
    have hw : window c.parcel.cells c.parcel.mDataPos 8 = wordBytes 8 val := henc
    have h8 : c.parcel.mDataPos + 8 ≤ c.parcel.mDataSize := hin
    unfold readValue
    simp only [wp_bind]
    rw [readPointer.spec r, if_pos h8]
    simp only [wp_pure, hw, bytesWord_wordBytes (by rfl : 64 = 8 * 8)]
    exact ⟨rfl, skip_readOver r (by omega) rfl⟩
  | blob data =>
    have hw : window c.parcel.cells c.parcel.mDataPos data.length = data := henc
    simp only [Value.encodedSize] at hin hfit
    have hlen : data.length ≤ INT32_MAX := by
      unfold INT32_MAX
      omega
    have hpad := padSize_eq hlen
    unfold readValue
    simp only [wp_bind]
    rw [read.spec r, if_neg (by omega), if_pos (by omega)]
    simp only [wp_pure, hw]
    refine ⟨rfl, ?_⟩
    rw [Value.encodedSize, ← hpad]
    exact skip_readOver r (by omega) rfl
  | string str =>
    obtain ⟨text, hstr, hlen, htext⟩ := henc
    have hfits := hstr.fits
    simp only [Value.encodedSize, hstr.size] at hin
    have hpad : padSize (text.length + 1) = (text.length + 1 + 3) / 4 * 4 :=
      padSize_eq (by unfold INT32_MAX; omega)
    have hstands : StringStands c.parcel text := ⟨hlen, htext, by omega, by omega⟩
    have hnat := hstands.toNat_length
    unfold readValue
    simp only [wp_bind]
    rw [readString16.spec r, if_pos hstands.stringInside, if_pos hstands.terminated]
    simp only [wp_bind, wp_pure]
    rw [loadText.spec (n := text.length) (c := (c.mapHeap Heap.nextLocal).mapParcel fun p =>
      skip (padSize ((stringLength c.parcel).toNat + 1)) (skip 4 p)) hstands.nul]
    refine ⟨?_, ?_⟩
    · have ht : textAt c.parcel.cells (c.parcel.mDataPos + 4) = text :=
        textAt_eq hstr.noNul htext
      rw [Value.expected, hstr.size, hstr.carries.bytes]
      exact congrArg (fun t => (STATUS_OK, Got.text t)) ht
    · have r4 := r.skip (by omega : 4 ≤ 2 ^ 32) (by omega)
      unfold ReadOver
      simp only [Ctx.parcel_mapParcel, Ctx.parcel_mapHeap, hnat]
      rw [skip, r4.sz_pos (by omega)]
      simp only [skip, r.sz_pos (by omega : 4 ≤ 2 ^ 32), Value.encodedSize, hstr.size, hpad,
        Nat.add_assoc]
  | nullString =>
    have hw : window c.parcel.cells c.parcel.mDataPos 4 = wordBytes 4 (-1 : BitVec 32) := henc
    have hin4 : c.parcel.mDataPos + 4 ≤ c.parcel.mDataSize := hin
    have hout : ¬StringInside c.parcel := by
      rintro ⟨-, hneg, -⟩
      unfold stringLength at hneg
      rw [hw, bytesWord_wordBytes (by rfl : 32 = 8 * 4)] at hneg
      exact absurd hneg (by decide)
    unfold readValue
    simp only [wp_bind]
    rw [readString16.spec r, if_neg hout]
    simp only [wp_pure, if_pos hin4]
    exact ⟨rfl, skip_readOver r (by omega) rfl⟩

/-- All values that stand in the data from the position on are read. -/
theorem readAll.spec (vs : List Value) (r : Readable c.parcel)
    (henc : EncodesAll c.parcel.cells c.parcel.mDataPos vs)
    (hin : c.parcel.mDataPos + totalSize vs ≤ c.parcel.mDataSize)
    (hfit : totalSize vs ≤ 2 ^ 30) :
    wp (readAll vs) (fun got c' => got = vs.map (fun v => (STATUS_OK, v.expected)) ∧
      ReadOver c (totalSize vs) c') E c := by
  induction vs generalizing c with
  | nil => exact ⟨rfl, rfl⟩
  | cons v vs ih =>
    have htotal : totalSize (v :: vs) = v.encodedSize + totalSize vs := by
      simp only [totalSize, List.map_cons, List.sum_cons]
    rw [htotal] at hin hfit
    obtain ⟨hv, hvs⟩ := henc
    unfold readAll
    simp only [wp_bind, wp_pure]
    refine wp_imp (readValue.spec v r hv (by omega) (by omega)) ?_
    rintro got c1 ⟨hgot, hp⟩
    have hpos : c1.parcel.mDataPos = c.parcel.mDataPos + v.encodedSize := by rw [hp]
    have hsize : c1.parcel.mDataSize = c.parcel.mDataSize := by rw [hp]
    have hcells : c1.parcel.cells = c.parcel.cells := by
      rw [hp]
      rfl
    have r1 : Readable c1.parcel :=
      ⟨by omega, by rw [hsize, hcells]; exact r.data, by rw [hcells]; exact r.fits⟩
    refine wp_imp (ih r1 (by rwa [hcells, hpos]) (by omega) (by omega)) ?_
    rintro gots c2 ⟨hgots, hp2⟩
    refine ⟨by rw [hgot, hgots, List.map_cons], ?_⟩
    unfold ReadOver at hp hp2 ⊢
    rw [hp2, hp, htotal, Nat.add_assoc]

/-! ## The law -/

theorem setDataPosition.spec {Q : Unit → Ctx W → Prop} {pos : Nat} (h : pos ≤ INT32_MAX) :
    wp (setDataPosition pos) Q E c ↔ Q () (c.mapParcel fun p => { p with
      mDataPos := pos, mNextObjectHint := 0, mObjectsSorted := false }) := by
  unfold setDataPosition
  rw [if_neg (by omega)]
  exact Iff.rfl

/-- Any values that are written in order into a fresh parcel, with memory to be had and at
most 2^30 bytes in all, are read back in order as they were, each with an OK status, and
the position ends where the data ends. -/
theorem values_are_read_as_they_were_written (x : Outside W) (c : Ctx W) (vs : List Value)
    (ha : Ample c.heap) (hv : ∀ v ∈ vs, v.WellFormed) (hfit : totalSize vs ≤ 2 ^ 30) :
    ∃ written c', roundTrip x vs c =
        .ok ((written, vs.map fun v => (STATUS_OK, v.expected)), c') ∧
      written.length = vs.length ∧ (∀ r ∈ written, r = STATUS_OK) ∧
      c'.parcel.mDataPos = c'.parcel.mDataSize := by
  have hrun : wp (roundTrip x vs) (fun r c' => (r.1.length = vs.length ∧
      (∀ s ∈ r.1, s = STATUS_OK) ∧ r.2 = vs.map fun v => (STATUS_OK, v.expected)) ∧
      c'.parcel.mDataPos = c'.parcel.mDataSize) never c := by
    unfold roundTrip initState
    simp only [wp_bind, wp_update, wp_pure]
    have hw := writeAll.spec (x := x) (E := never) (c := c.mapParcel fun _ => empty) vs
      empty_local ha rfl rfl hv (by simpa [empty] using hfit)
    refine wp_imp hw ?_
    rintro written c1 ⟨hok, hlen, a, henc⟩
    have hsize : c1.parcel.mDataSize = totalSize vs := by
      have := a.size
      simpa [empty] using this
    rw [setDataPosition.spec (Nat.zero_le _)]
    have r : Readable (c1.mapParcel fun p => { p with
        mDataPos := 0, mNextObjectHint := 0, mObjectsSorted := false }).parcel :=
      ⟨Nat.zero_le _, a.isLocal.readable.data, a.isLocal.readable.fits⟩
    have hr := readAll.spec (E := never) vs r henc (by
      show 0 + totalSize vs ≤ c1.parcel.mDataSize
      omega) hfit
    refine wp_imp hr ?_
    rintro got c2 ⟨hgot, hp⟩
    refine ⟨⟨hlen, hok, hgot⟩, ?_⟩
    rw [hp]
    show 0 + totalSize vs = c1.parcel.mDataSize
    omega
  obtain ⟨⟨written, got⟩, c', hc', ⟨hlen, hok, hgot⟩, hpos⟩ := wp_never_iff.mp hrun
  simp only at hgot hlen hok
  subst hgot
  exact ⟨written, c', hc', hlen, hok, hpos⟩

/-- Nothing outside answers. -/
def silent : Outside W where
  incStrong := fun _ => pure ()
  decStrong := fun _ => pure ()
  getStrongProxyForHandle := fun _ => pure 0
  close := fun _ => pure ()
  freeBuffer := fun _ => pure ()

/-- A heap that never runs out and leaves `0xAA` behind. -/
def plenty : Heap where
  fresh := fun _ => some fun _ => 0xAA
  requests := 0
  leftover := fun _ => 7
  locals := 0
  freed := []
  freedTables := []
  gParcelGlobalAllocSize := 0
  gParcelGlobalAllocCount := 0

/-- The record that holds `hi`. -/
def hi : BinderString := BinderString.init ⟨List.replicate 64 0xCC, rfl, 0, 0⟩ (some [104, 105])

theorem hi_holds : hi.Holds [104, 105] := by
  exact BinderString.init_holds _ (by decide) (by decide)

theorem values_are_read_as_they_were_written_in_one_message :
    ∃ written c', roundTrip silent [.int32 5, .blob [1, 2, 3], .string hi, .nullString]
        ⟨empty, plenty, ()⟩ =
        .ok ((written, [(STATUS_OK, .int32 5), (STATUS_OK, .blob [1, 2, 3]),
          (STATUS_OK, .text [104, 105]), (STATUS_OK, .null)]), c') ∧
      written.length = 4 ∧ (∀ r ∈ written, r = STATUS_OK) ∧
      c'.parcel.mDataPos = c'.parcel.mDataSize :=
  values_are_read_as_they_were_written silent ⟨empty, plenty, ()⟩
    [.int32 5, .blob [1, 2, 3], .string hi, .nullString] (fun _ h => by cases h)
    (by
      intro v hv
      simp only [List.mem_cons, List.not_mem_nil, or_false] at hv
      rcases hv with rfl | rfl | rfl | rfl
      · trivial
      · trivial
      · exact ⟨_, hi_holds⟩
      · trivial)
    (by decide)

end system_binder.Parcel
