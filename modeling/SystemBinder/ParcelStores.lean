-- What the writes store, whoever owns the parcel: each puts its whole encoding at the position,
-- or finds no room.
import SystemBinder.ParcelOwned

open prog memory

namespace system_binder.Parcel

variable {W : Type} {x : Outside W} {c c' : Ctx W} {E : Fault → Prop}

/-! ## Storing where there is room -/

/-- `c'` is `c` with some bytes at the position, which moved over them. -/
structure Stores (c c' : Ctx W) (bs : List UInt8) : Prop where
  parcel : c'.parcel = { c.parcel with
    mData := c'.parcel.mData
    mDataPos := c.parcel.mDataPos + bs.length
    mDataSize := max c.parcel.mDataSize (c.parcel.mDataPos + bs.length) }
  buffer : c'.parcel.mData.isSome = c.parcel.mData.isSome
  cells : c'.parcel.cells = overlay c.parcel.cells c.parcel.mDataPos bs
  heap : c'.heap = c.heap
  world : c'.world = c.world

namespace Stores

variable {bs : List UInt8} (st : Stores c c' bs)

include st

theorem pos : c'.parcel.mDataPos = c.parcel.mDataPos + bs.length := by rw [st.parcel]

theorem size : c'.parcel.mDataSize = max c.parcel.mDataSize (c.parcel.mDataPos + bs.length) := by
  rw [st.parcel]

theorem capacity : c'.parcel.mDataCapacity = c.parcel.mDataCapacity := by rw [st.parcel]

theorem objectsSize : c'.parcel.mObjectsSize = c.parcel.mObjectsSize := by rw [st.parcel]

theorem table : c'.parcel.table = c.parcel.table := by
  rw [st.parcel]
  rfl

theorem owner : c'.parcel.mOwner = c.parcel.mOwner := by rw [st.parcel]

theorem error : c'.parcel.mError = c.parcel.mError := by rw [st.parcel]

end Stores

/-- Inside the buffer a position does not wrap. -/
theorem Framed.sz_room {p : Parcel} {n : Nat} (s : Framed p)
    (hroom : p.mDataPos + n ≤ p.mDataCapacity) : sz (p.mDataPos + n) = p.mDataPos + n :=
  sz_of_le (Nat.le_trans hroom (Nat.le_trans s.capacity (by decide)))

theorem Sound.sz_pos {p : Parcel} {n : Nat} (s : Sound p) (hn : n ≤ 2 ^ 32) :
    sz (p.mDataPos + n) = p.mDataPos + n := by
  have hpos := s.pos
  have hsize := s.size
  have hcap := s.capacity
  apply sz_of_le
  have : SIZE_MAX = 2 ^ 64 - 1 := rfl
  have : INT32_MAX = 2 ^ 31 - 1 := rfl
  omega

theorem storeAligned.stores {Q : Int → Ctx W → Prop} {bs : List UInt8} (s : Framed c.parcel)
    (hroom : c.parcel.mDataPos + bs.length ≤ c.parcel.mDataCapacity)
    (hQ : ∀ c', Stores c c' bs → Q STATUS_OK c') : wp (storeAligned bs) Q E c := by
  have hcap := s.capacity
  have hin : c.parcel.mDataPos + bs.length ≤ c.parcel.cells.length := by rwa [s.data]
  have hsz := s.sz_room hroom
  unfold storeAligned
  simp only [wp_bind, wp_thisParcel]
  rw [wp_storeData hin, finishWrite.spec (c := c.mapParcel fun p => p.stored c.parcel.mDataPos bs)
    (Nat.le_trans hroom hcap)]
  refine hQ _ ⟨?_, ?_, cells_stored hin, rfl, rfl⟩
  · simp only [Ctx.parcel_mapParcel, advance, stored, hsz]
  · exact Option.isSome_map

theorem Framed.place {p : Parcel} (s : Framed p) (pos : Nat) :
    p.place pos = some pos ∨ p.place pos = none ∧ p.mDataCapacity = 0 := by
  unfold Parcel.place
  cases hd : p.mData with
  | some b => exact .inl rfl
  | none => exact .inr ⟨rfl, (s.empty hd).2.1⟩

/-- `c'` is `c` with room for `len` bytes and their padding claimed at the position: once the
bytes are stored there, the padding behind them is zero. -/
structure Claims (c c' : Ctx W) (len : Nat) : Prop where
  parcel : c'.parcel = { c.parcel with
    mData := c'.parcel.mData
    mDataPos := c.parcel.mDataPos + padSize len
    mDataSize := max c.parcel.mDataSize (c.parcel.mDataPos + padSize len) }
  buffer : c'.parcel.mData.isSome = c.parcel.mData.isSome
  length : c'.parcel.cells.length = c.parcel.cells.length
  cells : ∀ bs, bs.length = len → overlay c'.parcel.cells c.parcel.mDataPos bs =
    overlay c.parcel.cells c.parcel.mDataPos (bs ++ List.replicate (padSize len - len) 0)
  heap : c'.heap = c.heap
  world : c'.world = c.world

/-- Bytes before a word whose last bytes are zero are padded by it. -/
theorem overlay_padded {cells bs word : List UInt8} {pos k : Nat} (hk : k ≤ 3) (h4 : word.length = 4)
    (hin : pos + (bs.length + k) ≤ cells.length) (hlen : 4 ≤ bs.length + k)
    (hzero : ∀ j, j < 4 → 4 ≤ j + k → word[j]? = some 0) :
    overlay (overlay cells (pos + (bs.length + k) - 4) word) pos bs =
      overlay cells pos (bs ++ List.replicate k 0) := by
  have hword : pos + (bs.length + k) - 4 + word.length ≤ cells.length := by omega
  have hall : pos + (bs ++ List.replicate k (0 : UInt8)).length ≤ cells.length := by simpa using hin
  have hfirst : pos + bs.length ≤ (overlay cells (pos + (bs.length + k) - 4) word).length := by
    rw [length_overlay hword]
    omega
  apply List.ext_getElem?
  intro i
  rw [getElem?_overlay hfirst, getElem?_overlay hword, getElem?_overlay hall]
  simp only [List.length_append, List.length_replicate, h4]
  by_cases hbs : pos ≤ i ∧ i < pos + bs.length
  · rw [if_pos hbs, if_pos (by omega), List.getElem?_append_left (by omega)]
  · rw [if_neg hbs]
    by_cases hpad : pos + bs.length ≤ i ∧ i < pos + (bs.length + k)
    · rw [if_pos (by omega), if_pos (by omega), hzero _ (by omega) (by omega),
        List.getElem?_append_right (by omega), List.getElem?_replicate, if_pos (by omega)]
    · rw [if_neg (by omega : ¬(pos ≤ i ∧ i < pos + (bs.length + k)))]
      rw [if_neg (by omega)]

theorem claimInplace.claims {Q : Option Nat → Ctx W → Prop} {len : Nat} (s : Framed c.parcel)
    (hlen : len ≤ INT32_MAX) (hroom : c.parcel.mDataPos + padSize len ≤ c.parcel.mDataCapacity)
    (hQ : ∀ c', Claims c c' len → Q (c.parcel.place c.parcel.mDataPos) c') :
    wp (claimInplace len) Q E c := by
  have hcap := s.capacity
  have hpad := padSize_of_le hlen
  have hfin : c.parcel.mDataPos + padSize len ≤ INT32_MAX := Nat.le_trans hroom hcap
  have hsz := s.sz_room hroom
  unfold claimInplace
  simp only [wp_bind, wp_thisParcel, wp_ite, wp_pure]
  refine ⟨fun hne => ?_, fun heq => ?_⟩
  · have hin : c.parcel.mDataPos + padSize len - 4 + 4 ≤ c.parcel.cells.length := by
      rw [s.data]
      omega
    rw [wp_loadData hin, wp_storeData (by rwa [length_wordBytes])]
    rw [finishWrite.spec (c := c.mapParcel fun p => p.stored _ _) hfin]
    have hlast : ∀ w : List UInt8, w.length = 4 →
        (c.parcel.stored (c.parcel.mDataPos + padSize len - 4) w).cells =
          overlay c.parcel.cells (c.parcel.mDataPos + padSize len - 4) w := fun w hw =>
      cells_stored (by rwa [hw])
    refine hQ _ ⟨?_, Option.isSome_map, ?_, fun bs hbs => ?_, rfl, rfl⟩
    · simp only [Ctx.parcel_mapParcel, advance, stored, hsz]
    · show (c.parcel.stored _ _).cells.length = _
      rw [hlast _ (length_wordBytes 4 _), length_overlay (by rwa [length_wordBytes])]
    · show overlay (c.parcel.stored _ _).cells _ _ = _
      have hk : padSize len = bs.length + (padSize len - len) := by omega
      have hin' : c.parcel.mDataPos + (bs.length + (padSize len - len)) ≤
          c.parcel.cells.length := by
        rw [← hk, s.data]
        exact hroom
      rw [hlast _ (length_wordBytes 4 _)]
      nth_rewrite 1 [hk]
      exact overlay_padded (by omega) (length_wordBytes 4 _) hin' (by omega)
        fun j hj hz => padding_zero _ (by omega) (by omega) hj hz
  · have heq : padSize len = len := Classical.not_not.mp heq
    rw [finishWrite.spec hfin]
    refine hQ _ ⟨?_, rfl, rfl, fun bs hbs => ?_, rfl, rfl⟩
    · simp only [Ctx.parcel_mapParcel, advance, hsz]
    · rw [heq, Nat.sub_self, List.replicate_zero, List.append_nil]
      rfl

/-- The padded encoding of a blob. -/
def padded (data : List UInt8) : List UInt8 :=
  data ++ List.replicate (padSize data.length - data.length) 0

/-- The encoding of a string: its length, its text, a NUL and the padding. -/
def encodedString (text : List UInt8) : List UInt8 :=
  wordBytes 4 (BitVec.ofNat 32 text.length) ++ padded (text ++ [0])

theorem length_padded {data : List UInt8} (h : data.length ≤ INT32_MAX) :
    (padded data).length = padSize data.length := by
  have := padSize_of_le h
  unfold padded
  rw [List.length_append, List.length_replicate]
  omega

/-- The bytes go to the place that was claimed for them. -/
theorem Claims.stores {data : List UInt8} (hlen : data.length ≤ INT32_MAX)
    (hin : c.parcel.mDataPos + data.length ≤ c.parcel.cells.length)
    (a : Claims c c' data.length) :
    Stores c (c'.mapParcel fun p => p.stored c.parcel.mDataPos data) (padded data) where
  parcel := by
    rw [length_padded hlen]
    have hp := a.parcel
    simp only [Ctx.parcel_mapParcel, stored]
    rw [hp]
  buffer := Option.isSome_map.trans a.buffer
  cells := by
    rw [← a.length] at hin
    show (c'.parcel.stored c.parcel.mDataPos data).cells = _
    rw [cells_stored hin]
    exact a.cells data rfl
  heap := a.heap
  world := a.world

/-! ## Making room first -/

/-- `c₁` is `c`, which has room for `n` bytes at the position, or `c` after it grew for them. -/
def Ready (c c₁ : Ctx W) (n : Nat) : Prop :=
  c₁ = c ∧ c.parcel.mDataPos + n ≤ c.parcel.mDataCapacity ∨
    c.parcel.mDataCapacity < c.parcel.mDataPos + n ∧
      growthSize c.parcel.mDataSize n ≤ INT32_MAX ∧
      Fitted c c₁ (growthSize c.parcel.mDataSize n)

/-- There is no room for `n` bytes, and a growth for them asks for too much. -/
def TooMuch (c : Ctx W) (n : Nat) : Prop :=
  c.parcel.mDataCapacity < c.parcel.mDataPos + n ∧ INT32_MAX < growthSize c.parcel.mDataSize n

section Ready

variable {c₁ : Ctx W} {n : Nat}

theorem Ready.framed (s : Framed c.parcel) (r : Ready c c₁ n) : Framed c₁.parcel := by
  rcases r with ⟨rfl, -⟩ | ⟨-, -, f⟩
  · exact s
  · exact f.framed

theorem Ready.pos (r : Ready c c₁ n) : c₁.parcel.mDataPos = c.parcel.mDataPos := by
  rcases r with ⟨rfl, -⟩ | ⟨-, -, f⟩
  · rfl
  · exact f.pos

theorem Ready.size (r : Ready c c₁ n) : c₁.parcel.mDataSize = c.parcel.mDataSize := by
  rcases r with ⟨rfl, -⟩ | ⟨-, -, f⟩
  · rfl
  · exact f.size

theorem Ready.error (r : Ready c c₁ n) : c₁.parcel.mError = c.parcel.mError := by
  rcases r with ⟨rfl, -⟩ | ⟨-, -, f⟩
  · rfl
  · exact f.error

end Ready

/-- Bytes are stored where there is room, or after a growth. Or it asks for too much, or there is
no memory. -/
theorem writeAligned.usable {Q : Int → Ctx W → Prop} {bs : List UInt8} (u : Usable c.parcel)
    (h0 : 0 < bs.length) (hlen : bs.length ≤ INT32_MAX)
    (hbig : TooMuch c bs.length → Q STATUS_BAD_VALUE c)
    (hnone : ∀ c', OutOfMemory c c' → ¬Ample c.heap → Q STATUS_NO_MEMORY c')
    (hroom : c.parcel.mDataPos + bs.length ≤ c.parcel.mDataCapacity →
      ∀ c', Stores c c' bs → Q STATUS_OK c')
    (hgrown : c.parcel.mDataCapacity < c.parcel.mDataPos + bs.length →
      growthSize c.parcel.mDataSize bs.length ≤ INT32_MAX →
      wp (rehouse x c.parcel) (fun _ w => ∀ c₁ c', c₁.world = w →
        Rehoused c c₁ (growthSize c.parcel.mDataSize bs.length) → Stores c₁ c' bs →
        Q STATUS_OK c') (fun e => E (.inCall e)) c.world) :
    wp (writeAligned x bs) Q E c := by
  have s := u.sound
  have hpos := s.pos
  have hgrow := le_growthSize c.parcel.mDataSize bs.length
  have hsz := s.sz_pos (n := bs.length) (by unfold INT32_MAX at hlen; omega)
  unfold writeAligned
  simp only [wp_bind, wp_thisParcel, hsz, wp_ite, wp_pure]
  refine ⟨fun h => storeAligned.stores s.toFramed h (hroom h), fun hfull => ?_⟩
  have hfull := Nat.lt_of_not_le hfull
  refine growData.usable u h0 hlen (by omega) (fun hlarge => ?_) (fun c' hno ha => ?_) fun hfit => ?_
  · exact ⟨fun he => absurd he (by decide), fun _ => hbig ⟨hfull, hlarge⟩⟩
  · exact ⟨fun he => absurd he (by decide), fun _ => hnone c' hno ha⟩
  · refine wp_imp (hgrown hfull hfit) fun _ w hQ c₁ r hw => ⟨fun _ => ?_, fun hne => absurd rfl hne⟩
    refine storeAligned.stores r.framed ?_ fun c' st => hQ c₁ c' hw r st
    rw [r.pos, r.capacity]
    omega

/-- A place for a blob is claimed where there is room, or after a growth. Or it asks for too much,
or there is no memory. -/
theorem writeInplace.usable {Q : Option Nat → Ctx W → Prop} {len : Nat} (u : Usable c.parcel)
    (hlen : len ≤ INT32_MAX) (hbig : TooMuch c (padSize len) → Q none c)
    (hnone : ∀ c', OutOfMemory c c' → ¬Ample c.heap → Q none c')
    (hroom : c.parcel.mDataPos + padSize len ≤ c.parcel.mDataCapacity →
      ∀ c', Claims c c' len → Q (c.parcel.place c.parcel.mDataPos) c')
    (hgrown : c.parcel.mDataCapacity < c.parcel.mDataPos + padSize len →
      growthSize c.parcel.mDataSize (padSize len) ≤ INT32_MAX →
      wp (rehouse x c.parcel) (fun _ w => ∀ c₁ c', c₁.world = w →
        Rehoused c c₁ (growthSize c.parcel.mDataSize (padSize len)) → Claims c₁ c' len →
        Q (c₁.parcel.place c₁.parcel.mDataPos) c') (fun e => E (.inCall e)) c.world) :
    wp (writeInplace x len) Q E c := by
  have s := u.sound
  have hpos := s.pos
  have hsize := s.size
  have hpad := padSize_of_le hlen
  have hgrow := le_growthSize c.parcel.mDataSize (padSize len)
  have hsz := s.sz_pos (n := padSize len) (by unfold INT32_MAX at hlen; omega)
  unfold writeInplace
  rw [if_neg (by omega)]
  simp only [wp_bind, wp_thisParcel, hsz]
  rw [if_neg (by omega)]
  simp only [wp_bind, wp_ite, wp_pure]
  refine ⟨fun h => claimInplace.claims s.toFramed hlen h (hroom h), fun hfull => ?_⟩
  have hfull := Nat.lt_of_not_le hfull
  by_cases hlong : INT32_MAX < padSize len
  · unfold growData
    rw [if_pos hlong]
    exact ⟨fun he => absurd he (by decide), fun _ => hbig ⟨hfull, by omega⟩⟩
  refine growData.usable u (by omega) (Nat.le_of_not_lt hlong) (by omega) (fun hlarge => ?_)
    (fun c' hno ha => ?_) fun hfit => ?_
  · exact ⟨fun he => absurd he (by decide), fun _ => hbig ⟨hfull, hlarge⟩⟩
  · exact ⟨fun he => absurd he (by decide), fun _ => hnone c' hno ha⟩
  · refine wp_imp (hgrown hfull hfit) fun _ w hQ c₁ r hw => ⟨fun _ => ?_, fun hne => absurd rfl hne⟩
    refine claimInplace.claims r.framed hlen ?_ fun c' a => hQ c₁ c' hw r a
    rw [r.pos, r.capacity]
    omega

theorem stored_empty (p : Parcel) (pos : Nat) : p.stored pos [] = p := by
  have ho : ∀ b : Block UInt8, { b with cells := overlay b.cells pos [] } = b := by
    intro b
    simp [overlay]
  simp only [stored, ho, Option.map_id']

/-- An empty blob leaves the parcel as it is. -/
theorem write.empty (s : Sound c.parcel) :
    wp (write x []) (fun r c' => (r = STATUS_OK ∨ r = c.parcel.mError) ∧ c' = c) E c := by
  have hsz := s.sz_pos (n := 0) (Nat.zero_le _)
  have hroom : c.parcel.mDataPos + 0 ≤ c.parcel.mDataCapacity := Nat.le_trans s.pos s.size
  have hsame : c.mapParcel (advance 0) = c := by
    have hpos := s.pos
    unfold Ctx.mapParcel advance
    rw [hsz, Nat.add_zero, Nat.max_eq_left hpos]
  have hpad : padSize 0 = 0 := rfl
  unfold write writeInplace claimInplace
  simp only [List.length_nil, hpad, wp_bind, wp_ite, wp_thisParcel, wp_pure, hsz]
  refine ⟨fun hbad => absurd hbad (by decide), fun _ => ⟨fun hbad => absurd hbad (by decide), fun _ =>
    ⟨fun hbad => absurd hbad (by omega), fun _ => ⟨fun _ => ⟨fun hbad => absurd rfl hbad, fun _ => ?_⟩,
      fun hfull => absurd hroom hfull⟩⟩⟩⟩
  rw [finishWrite.spec (Nat.le_trans hroom s.capacity), hsame]
  rcases s.toFramed.place c.parcel.mDataPos with hplace | ⟨hplace, -⟩
  · have hin : c.parcel.mDataPos + ([] : List UInt8).length ≤ c.parcel.cells.length := by
      rw [s.data]
      exact hroom
    rw [hplace, wp_bind, wp_storeData hin]
    simp only [stored_empty, Ctx.mapParcel, wp_pure, true_or, and_self]
  · rw [hplace]
    exact ⟨.inr rfl, rfl⟩

/-- The bytes are stored where a place was claimed for them. -/
theorem Claims.puts {Q : Unit → Ctx W → Prop} {data : List UInt8} (s : Sound c.parcel)
    (h0 : 0 < data.length) (hlen : data.length ≤ INT32_MAX)
    (hroom : c.parcel.mDataPos + padSize data.length ≤ c.parcel.mDataCapacity)
    (a : Claims c c' data.length) (hQ : ∀ c'', Stores c c'' (padded data) → Q () c'') :
    c.parcel.place c.parcel.mDataPos = some c.parcel.mDataPos ∧
      wp (storeData c.parcel.mDataPos data) Q E c' := by
  have hpad := padSize_of_le hlen
  have hin : c.parcel.mDataPos + data.length ≤ c.parcel.cells.length := by
    rw [s.data]
    omega
  refine ⟨?_, ?_⟩
  · rcases s.toFramed.place c.parcel.mDataPos with hplace | ⟨-, hzero⟩
    · exact hplace
    · omega
  · rw [wp_storeData (by rw [a.length]; exact hin)]
    exact hQ _ (a.stores hlen hin)

/-- A blob is stored with its padding where there is room, or after a growth. Or it asks for too
much, or there is no memory. -/
theorem write.usable {Q : Int → Ctx W → Prop} {data : List UInt8} (u : Usable c.parcel)
    (h0 : 0 < data.length) (hlen : data.length ≤ INT32_MAX)
    (hbig : TooMuch c (padSize data.length) → Q c.parcel.mError c)
    (hnone : ∀ c', OutOfMemory c c' → ¬Ample c.heap → Q STATUS_NO_MEMORY c')
    (hroom : c.parcel.mDataPos + padSize data.length ≤ c.parcel.mDataCapacity →
      ∀ c', Stores c c' (padded data) → Q STATUS_OK c')
    (hgrown : c.parcel.mDataCapacity < c.parcel.mDataPos + padSize data.length →
      growthSize c.parcel.mDataSize (padSize data.length) ≤ INT32_MAX →
      wp (rehouse x c.parcel) (fun _ w => ∀ c₁ c', c₁.world = w →
        Rehoused c c₁ (growthSize c.parcel.mDataSize (padSize data.length)) →
        Stores c₁ c' (padded data) → Q STATUS_OK c') (fun e => E (.inCall e)) c.world) :
    wp (write x data) Q E c := by
  have hpos := u.pos
  have hgrow := le_growthSize c.parcel.mDataSize (padSize data.length)
  unfold write
  rw [if_neg (by omega), wp_bind]
  refine writeInplace.usable u hlen hbig (fun c' hno ha => ?_) (fun h c' a => ?_) fun hfull hfit => ?_
  · have he : c'.parcel.mError = STATUS_NO_MEMORY := by rw [hno.parcel]
    show Q c'.parcel.mError c'
    rw [he]
    exact hnone c' hno ha
  · obtain ⟨hplace, hput⟩ := a.puts (Q := fun _ => Q STATUS_OK) (E := E) u.sound h0 hlen h (hroom h)
    rw [hplace, wp_bind]
    exact hput
  · refine wp_imp (hgrown hfull hfit) fun _ w hQ c₁ c' hw r a => ?_
    have hin : c₁.parcel.mDataPos + padSize data.length ≤ c₁.parcel.mDataCapacity := by
      rw [r.pos, r.capacity]
      omega
    obtain ⟨hplace, hput⟩ := a.puts (Q := fun _ => Q STATUS_OK) (E := E) r.sound h0 hlen hin
      fun c'' st => hQ c₁ c'' hw r st
    rw [hplace, wp_bind]
    exact hput

/-- Two stores, one behind the other, are one. -/
theorem stored_append {p : Parcel} {pos : Nat} {xs ys : List UInt8}
    (h : pos + (xs ++ ys).length ≤ p.cells.length) :
    (p.stored pos xs).stored (pos + xs.length) ys = p.stored pos (xs ++ ys) := by
  have hcells : ∀ cells : List UInt8, pos + (xs ++ ys).length ≤ cells.length →
      overlay (overlay cells pos xs) (pos + xs.length) ys = overlay cells pos (xs ++ ys) := by
    intro cells hin
    have hlen : (xs ++ ys).length = xs.length + ys.length := List.length_append
    have hfirst : pos + xs.length ≤ cells.length := by omega
    have hsecond : pos + xs.length + ys.length ≤ (overlay cells pos xs).length := by
      rw [length_overlay hfirst]
      omega
    apply List.ext_getElem?
    intro i
    rw [getElem?_overlay hsecond, getElem?_overlay hfirst, getElem?_overlay hin, hlen]
    by_cases hy : pos + xs.length ≤ i ∧ i < pos + xs.length + ys.length
    · rw [if_pos hy, if_pos (by omega), List.getElem?_append_right (by omega)]
      congr 1
      omega
    · rw [if_neg hy]
      by_cases hx : pos ≤ i ∧ i < pos + xs.length
      · rw [if_pos hx, if_pos (by omega), List.getElem?_append_left (by omega)]
      · rw [if_neg hx, if_neg (by omega)]
  unfold stored
  unfold Parcel.cells at h
  cases hd : p.mData with
  | none => rfl
  | some b =>
    rw [hd] at h
    simp only [Option.map_some, hcells b.cells h]

theorem wp_storeData_twice {Q : Unit → Ctx W → Prop} {pos : Nat} {xs ys : List UInt8}
    (h : pos + (xs ++ ys).length ≤ c.parcel.cells.length) :
    wp (storeData pos xs) (fun _ c' => wp (storeData (pos + xs.length) ys) Q E c') E c ↔
      Q () (c.mapParcel fun p => p.stored pos (xs ++ ys)) := by
  have hlen : (xs ++ ys).length = xs.length + ys.length := List.length_append
  have hfirst : pos + xs.length ≤ c.parcel.cells.length := by omega
  have hsecond : pos + xs.length + ys.length ≤ (c.parcel.stored pos xs).cells.length := by
    rw [cells_stored hfirst, length_overlay hfirst]
    omega
  have hboth : ((c.mapParcel fun p => p.stored pos xs).mapParcel
      fun p => p.stored (pos + xs.length) ys) = c.mapParcel fun p => p.stored pos (xs ++ ys) :=
    congrArg (fun p => ({ c with parcel := p } : Ctx W)) (stored_append h)
  rw [wp_storeData hfirst, wp_storeData hsecond, hboth]

theorem Stores.framed {bs : List UInt8} (s : Framed c.parcel)
    (hroom : c.parcel.mDataPos + bs.length ≤ c.parcel.mDataCapacity) (st : Stores c c' bs) :
    Framed c'.parcel := by
  refine ⟨?_, ?_, ?_, ?_, ?_⟩
  · rw [st.size, st.capacity]
    exact Nat.max_le.mpr ⟨s.size, hroom⟩
  · rw [st.capacity]
    exact s.capacity
  · rw [st.cells, length_overlay (by rwa [s.data]), st.capacity]
    exact s.data
  · rw [st.objectsSize, st.table]
    exact s.objects
  · rw [st.owner, st.buffer]
    exact s.buffer

theorem Stores.sound {bs : List UInt8} (s : Sound c.parcel)
    (hroom : c.parcel.mDataPos + bs.length ≤ c.parcel.mDataCapacity) (st : Stores c c' bs) :
    Sound c'.parcel := by
  refine ⟨st.framed s.toFramed hroom, ?_⟩
  rw [st.pos, st.size]
  exact Nat.le_max_right _ _

theorem Stores.isLocal {bs : List UInt8} (l : Local c.parcel)
    (hroom : c.parcel.mDataPos + bs.length ≤ c.parcel.mDataCapacity) (st : Stores c c' bs) :
    Local c'.parcel where
  owner := st.owner.trans l.owner
  pos := (st.sound l.sound hroom).pos
  size := (st.sound l.sound hroom).size
  capacity := (st.sound l.sound hroom).capacity
  data := (st.sound l.sound hroom).data
  objects := by
    rw [st.parcel]
    exact l.objects
  table := by
    rw [st.table, st.parcel]
    exact l.table
  offsets := by
    rw [st.table, st.objectsSize, st.capacity]
    exact l.offsets

/-- Bytes that are stored at the end come last. -/
theorem window_appended {cells bs : List UInt8} {n : Nat} (h : n + bs.length ≤ cells.length) :
    window (overlay cells n bs) 0 (n + bs.length) = window cells 0 n ++ bs := by
  rw [window_append, Nat.zero_add, window_overlay_same h,
    window_overlay_other h (.inl (by omega))]

/-- What a store leaves alone. -/
theorem Stores.others {bs : List UInt8} (s : Framed c.parcel)
    (hroom : c.parcel.mDataPos + bs.length ≤ c.parcel.mDataCapacity) (st : Stores c c' bs)
    {q m : Nat} (h : q + m ≤ c.parcel.mDataPos ∨ c.parcel.mDataPos + bs.length ≤ q) :
    window c'.parcel.cells q m = window c.parcel.cells q m := by
  rw [st.cells]
  exact window_overlay_other (by rwa [s.data]) h

theorem Ready.bytes {c₁ : Ctx W} {n : Nat} (r : Ready c c₁ n) {q m : Nat}
    (h : q + m ≤ c.parcel.mDataSize) :
    window c₁.parcel.cells q m = window c.parcel.cells q m := by
  rcases r with ⟨rfl, -⟩ | ⟨-, -, f⟩
  · rfl
  · exact f.bytes q m h

/-! ## Objects -/

/-- An object is listed where it is no null object, or null objects are listed, too. -/
abbrev IsListed (val : FlatBinderObject) (nullMetaData : Bool) : Prop :=
  nullMetaData = true ∨ val.binder ≠ 0

/-- `c'` is `c` with an object at the position, which moved over it, and perhaps one more entry in
the table. -/
structure Lists (c c' : Ctx W) (val : FlatBinderObject) (listed : Bool) : Prop where
  parcel : c'.parcel = { c.parcel with
    mData := c'.parcel.mData
    mDataPos := c.parcel.mDataPos + FLAT_SIZE
    mDataSize := max c.parcel.mDataSize (c.parcel.mDataPos + FLAT_SIZE)
    mObjects := c'.parcel.mObjects
    mObjectsSize := c.parcel.mObjectsSize + (if listed = true then 1 else 0)
    mHasFds := c'.parcel.mHasFds
    mFdsKnown := c'.parcel.mFdsKnown }
  buffer : c'.parcel.mData.isSome = c.parcel.mData.isSome
  cells : c'.parcel.cells = overlay c.parcel.cells c.parcel.mDataPos val.toBytes
  table : c'.parcel.table = if listed = true
    then overlay c.parcel.table c.parcel.mObjectsSize [c.parcel.mDataPos] else c.parcel.table
  heap : c'.heap = c.heap

theorem finishWrite.moves {Q : Int → Ctx W → Prop}
    (h : c.parcel.mDataPos + FLAT_SIZE ≤ INT32_MAX)
    (hQ : Q STATUS_OK (c.mapParcel fun p => { p with
      mDataPos := c.parcel.mDataPos + FLAT_SIZE
      mDataSize := max c.parcel.mDataSize (c.parcel.mDataPos + FLAT_SIZE) })) :
    wp (finishWrite FLAT_SIZE) Q E c := by
  rw [finishWrite.spec h]
  have hsame : c.mapParcel (advance FLAT_SIZE) = c.mapParcel fun p => { p with
      mDataPos := c.parcel.mDataPos + FLAT_SIZE
      mDataSize := max c.parcel.mDataSize (c.parcel.mDataPos + FLAT_SIZE) } := by
    unfold Ctx.mapParcel advance
    rw [sz_of_le (Nat.le_trans h (by decide))]
  rwa [hsame]

/-- The stored object is listed, if it must be, and the position moves over it. -/
theorem storeFlat.lists {Q : Int → Ctx W → Prop} {val : FlatBinderObject} {nullMetaData : Bool}
    (s : Sound c.parcel) (hroom : c.parcel.mDataPos + FLAT_SIZE ≤ c.parcel.mDataCapacity)
    (hobj : IsListed val nullMetaData → c.parcel.mObjectsSize < c.parcel.table.length)
    (hrefused : val.type = BINDER_TYPE_FD → c.parcel.mAllowFds = false →
      Q STATUS_FDS_NOT_ALLOWED (c.mapParcel fun p => p.stored c.parcel.mDataPos val.toBytes))
    (hlisted : IsListed val nullMetaData → wp (acquire_object x val) (fun _ w => ∀ c',
      Lists c c' val true → c'.world = w → Q STATUS_OK c') (fun e => E (.inCall e)) c.world)
    (hplain : ¬IsListed val nullMetaData → ∀ c', Lists c c' val false → c'.world = c.world →
      Q STATUS_OK c') :
    wp (storeFlat x val nullMetaData) Q E c := by
  have hin : c.parcel.mDataPos + val.toBytes.length ≤ c.parcel.cells.length := by
    rwa [length_toBytes, s.data]
  -- whatever the flags of files say
  have hlist : ∀ fds known, wp (listFlat x val nullMetaData) Q E
      (c.mapParcel fun p => { p.stored c.parcel.mDataPos val.toBytes with
        mHasFds := fds, mFdsKnown := known }) := by
    intro fds known
    generalize hc₁ : (c.mapParcel fun p => { p.stored c.parcel.mDataPos val.toBytes with
      mHasFds := fds, mFdsKnown := known }) = c₁
    have hcells : c₁.parcel.cells = overlay c.parcel.cells c.parcel.mDataPos val.toBytes := by
      rw [← hc₁]
      exact cells_stored hin
    have hsome : c₁.parcel.mData.isSome = c.parcel.mData.isSome := by
      rw [← hc₁]
      exact Option.isSome_map
    have hfin : c₁.parcel.mDataPos + FLAT_SIZE ≤ INT32_MAX := by
      rw [← hc₁]
      exact Nat.le_trans hroom s.capacity
    unfold listFlat
    simp only [wp_bind, wp_thisParcel, wp_ite]
    refine ⟨fun hl => ?_, fun hl => ?_⟩
    · have hobj₁ : c₁.parcel.mObjectsSize < c₁.parcel.table.length := by
        rw [← hc₁]
        exact hobj hl
      rw [wp_storeObject hobj₁, wp_outside, ← hc₁]
      refine wp_imp (hlisted hl) fun _ w hw => ?_
      rw [wp_update]
      refine finishWrite.moves (Nat.le_trans hroom s.capacity) (hw _ ⟨?_, ?_, ?_, ?_, rfl⟩ rfl)
      · simp only [stored, listed, Ctx.mapParcel, Ctx.setWorld, if_true]
      · exact hc₁ ▸ hsome
      · exact hc₁ ▸ hcells
      · exact table_listed (hobj hl)
    · refine finishWrite.moves hfin ?_
      rw [← hc₁]
      refine hplain hl _ ⟨?_, hc₁ ▸ hsome, hc₁ ▸ hcells, ?_, rfl⟩ rfl
      · simp only [stored, Ctx.mapParcel, Bool.false_eq_true, if_false, Nat.add_zero]
      · simp only [Bool.false_eq_true, if_false]
        rfl
  unfold storeFlat
  simp only [wp_bind, wp_thisParcel]
  rw [wp_storeData hin]
  simp only [wp_ite, wp_pure, wp_bind, wp_update]
  refine ⟨fun hfd => ⟨fun hno => hrefused hfd hno, fun _ => hlist true true⟩, fun _ => ?_⟩
  exact hlist c.parcel.mHasFds c.parcel.mFdsKnown

end system_binder.Parcel
