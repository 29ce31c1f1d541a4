-- The way of a Status from a service to its caller: what is written at the end of a parcel is read
-- back, and the position is behind it, but where the exception is a parcelable.
import SystemBinder.ParcelStores
import SystemBinder.ParcelPeer

open prog memory

namespace system_binder.Parcel

variable {W : Type} {x : Outside W} {c c' : Ctx W}

/-! ## Writes at the end -/

/-- Growths for pieces of these lengths, one after another from the end of the data on, all stay
in the limit. -/
def CanGrow : List Nat → Nat → Nat → Prop
  | [], _, _ => True
  | n :: rest, size, capacity =>
    if size + n ≤ capacity then CanGrow rest (size + n) capacity
    else growthSize size n ≤ INT32_MAX ∧ CanGrow rest (size + n) (growthSize size n)

instance decidableCanGrow : ∀ (pieces : List Nat) (size capacity : Nat),
    Decidable (CanGrow pieces size capacity)
  | [], _, _ => isTrue trivial
  | n :: rest, size, capacity => by
    have := decidableCanGrow rest
    unfold CanGrow
    infer_instance

/-- The pieces can be written at the end of the parcel. -/
abbrev RoomFor (pieces : List Nat) (p : Parcel) : Prop :=
  CanGrow pieces p.mDataSize p.mDataCapacity

/-- The position is at the end of the data, and there is memory. -/
structure AtEnd (c : Ctx W) : Prop where
  usable : Usable c.parcel
  pos : c.parcel.mDataPos = c.parcel.mDataSize
  ample : Ample c.heap

/-- `c'` is `c` with some bytes behind the others. -/
structure Lands (c c' : Ctx W) (bs : List UInt8) : Prop where
  isLocal : Local c'.parcel
  pos : c'.parcel.mDataPos = c'.parcel.mDataSize
  size : c'.parcel.mDataSize = c.parcel.mDataSize + bs.length
  bytes : window c'.parcel.cells 0 c'.parcel.mDataSize =
    window c.parcel.cells 0 c.parcel.mDataSize ++ bs
  ample : Ample c'.heap

theorem Lands.atEnd {bs : List UInt8} (l : Lands c c' bs) : AtEnd c' :=
  ⟨.inl l.isLocal, l.pos, l.ample⟩

theorem Lands.trans {c'' : Ctx W} {xs ys : List UInt8} (a : Lands c c' xs) (b : Lands c' c'' ys) :
    Lands c c'' (xs ++ ys) where
  isLocal := b.isLocal
  pos := b.pos
  size := by rw [b.size, a.size, List.length_append, Nat.add_assoc]
  bytes := by rw [b.bytes, a.bytes, List.append_assoc]
  ample := b.ample

theorem Stores.lands {bs : List UInt8} (h : AtEnd c) (l : Local c.parcel)
    (hroom : c.parcel.mDataPos + bs.length ≤ c.parcel.mDataCapacity) (st : Stores c c' bs) :
    Lands c c' bs := by
  have hsize : c'.parcel.mDataSize = c.parcel.mDataSize + bs.length := by
    rw [st.size, h.pos]
    omega
  refine ⟨st.isLocal l hroom, ?_, hsize, ?_, ?_⟩
  · rw [hsize, st.pos, h.pos]
  · rw [hsize, st.cells, h.pos]
    apply window_appended
    rw [l.data, ← h.pos]
    exact hroom
  · unfold Ample
    rw [st.heap]
    exact h.ample

theorem Rehoused.atEnd {n : Nat} (h : AtEnd c) (r : Rehoused c c' n) : AtEnd c' where
  usable := .inl r.isLocal
  pos := by rw [r.pos, r.size, h.pos]
  ample := by
    unfold Ample
    rw [r.fresh]
    exact h.ample

theorem Rehoused.lands {c₁ : Ctx W} {n : Nat} {bs : List UInt8} (r : Rehoused c c₁ n)
    (l : Lands c₁ c' bs) : Lands c c' bs where
  isLocal := l.isLocal
  pos := l.pos
  size := by rw [l.size, r.size]
  bytes := by rw [l.bytes, r.size, r.bytes 0 _ (by omega)]
  ample := l.ample

/-- What the functions outside do where a parcel grows does not matter. -/
theorem rehouse_whatever {p : Parcel} {w : W} {P : W → Prop} (h : ∀ w, P w) :
    wp (rehouse x p) (fun _ w => P w) (fun e => InCall (.inCall e)) w :=
  wp_of_all (fun _ w => h w) fun e => ⟨e, rfl⟩

/-- Stored where there is room, the piece lands and leaves room for the rest. -/
theorem Stores.lands_with {bs : List UInt8} {rest : List Nat} (h : AtEnd c) (h0 : 0 < bs.length)
    (hroom : c.parcel.mDataPos + bs.length ≤ c.parcel.mDataCapacity)
    (hfit : RoomFor (bs.length :: rest) c.parcel) (st : Stores c c' bs) :
    Lands c c' bs ∧ RoomFor rest c'.parcel := by
  have l : Local c.parcel := by
    rcases h.usable with l | b
    · exact l
    · have := b.full
      rw [h.pos] at hroom
      omega
  have lands := st.lands h l hroom
  refine ⟨lands, ?_⟩
  unfold RoomFor CanGrow at hfit
  rw [if_pos (h.pos ▸ hroom)] at hfit
  unfold RoomFor
  rwa [lands.size, st.capacity]

/-- Stored after a growth, too. -/
theorem Rehoused.lands_with {c₁ : Ctx W} {bs : List UInt8} {rest : List Nat} (h : AtEnd c)
    (hfull : c.parcel.mDataCapacity < c.parcel.mDataPos + bs.length)
    (hfit : RoomFor (bs.length :: rest) c.parcel)
    (r : Rehoused c c₁ (growthSize c.parcel.mDataSize bs.length)) (st : Stores c₁ c' bs) :
    Lands c c' bs ∧ RoomFor rest c'.parcel := by
  have h₁ := r.atEnd h
  have hgrow := le_growthSize c.parcel.mDataSize bs.length
  have lands := st.lands h₁ r.isLocal (by rw [h₁.pos, r.size, r.capacity]; exact hgrow)
  refine ⟨r.lands lands, ?_⟩
  unfold RoomFor CanGrow at hfit
  rw [if_neg (Nat.not_le_of_lt (h.pos ▸ hfull))] at hfit
  unfold RoomFor
  rw [lands.size, r.size, st.capacity, r.capacity]
  exact hfit.2

/-- There is room, or there is not too much to be written. -/
theorem AtEnd.not_tooMuch {n : Nat} {rest : List Nat} (h : AtEnd c)
    (hfit : RoomFor (n :: rest) c.parcel) : ¬TooMuch c n := by
  rintro ⟨hfull, hbig⟩
  unfold RoomFor CanGrow at hfit
  rw [if_neg (Nat.not_le_of_lt (h.pos ▸ hfull))] at hfit
  exact absurd hfit.1 (Nat.not_le_of_lt hbig)

theorem writeAligned.lands {Q : Int → Ctx W → Prop} {bs : List UInt8} {rest : List Nat}
    (h : AtEnd c) (h0 : 0 < bs.length) (hlen : bs.length ≤ INT32_MAX)
    (hfit : RoomFor (bs.length :: rest) c.parcel)
    (hQ : ∀ c', Lands c c' bs → RoomFor rest c'.parcel → Q STATUS_OK c') :
    wp (writeAligned x bs) Q InCall c := by
  refine writeAligned.usable h.usable h0 hlen (fun hbig => absurd hbig (h.not_tooMuch hfit))
    (fun c' _ hno => absurd h.ample hno) (fun hroom c' st => ?_) fun hfull _ => ?_
  · obtain ⟨lands, hrest⟩ := st.lands_with h h0 hroom hfit
    exact hQ c' lands hrest
  · refine rehouse_whatever fun w c₁ c' _ r st => ?_
    obtain ⟨lands, hrest⟩ := r.lands_with h hfull hfit st
    exact hQ c' lands hrest

theorem writeInt32.lands {Q : Int → Ctx W → Prop} {val : BitVec 32} {rest : List Nat}
    (h : AtEnd c) (hfit : RoomFor (4 :: rest) c.parcel)
    (hQ : ∀ c', Lands c c' (wordBytes 4 val) → RoomFor rest c'.parcel → Q STATUS_OK c') :
    wp (writeInt32 x val) Q InCall c := by
  have h4 : (wordBytes 4 val).length = 4 := length_wordBytes 4 val
  rw [← h4] at hfit
  exact writeAligned.lands h (by omega) (by unfold INT32_MAX; omega) hfit hQ

/-- The pieces in which a string is written: its length, and its padded text. -/
theorem writeString16.lands {Q : Int → Ctx W → Prop} {str : BinderString} {text : List UInt8}
    {rest : List Nat} (hstr : str.Carries text) (h : AtEnd c)
    (hfit : RoomFor (4 :: padSize (text.length + 1) :: rest) c.parcel)
    (hQ : ∀ c', Lands c c' (encodedString text) → RoomFor rest c'.parcel → Q STATUS_OK c') :
    wp (writeString16 x (some str)) Q InCall c := by
  have hlen : text.length ≤ 64 := hstr.fits
  have hsz : sz (text.length + 1) = text.length + 1 := by
    apply sz_of_le
    unfold SIZE_MAX
    omega
  have hdata : (text ++ [(0 : UInt8)]).length = text.length + 1 := by simp
  have hsmall : (text ++ [(0 : UInt8)]).length ≤ INT32_MAX := by
    unfold INT32_MAX
    omega
  have hlp : (padded (text ++ [0])).length = padSize (text.length + 1) := by
    rw [length_padded hsmall, hdata]
  have hpad := padSize_of_le hsmall
  rw [hdata] at hpad
  have hcopy : (str.copyTo text.length : Prog (Ctx W) Fault _) = pure text := by
    unfold BinderString.copyTo
    rw [if_pos hstr.fits, hstr.bytes]
  unfold writeString16
  simp only [wp_bind, hstr.size, hsz]
  refine writeInt32.lands h hfit fun c₁ lands₁ hfit₁ => ?_
  have h₁ := lands₁.atEnd
  -- the text and its NUL are stored where a place was claimed for them
  have hstore : ∀ c₂ c₃ : Ctx W, Sound c₂.parcel →
      c₂.parcel.mDataPos + padSize (text.length + 1) ≤ c₂.parcel.mDataCapacity →
      Claims c₂ c₃ (text.length + 1) →
      (∀ c', Stores c₂ c' (padded (text ++ [0])) → Q STATUS_OK c') →
      c₂.parcel.place c₂.parcel.mDataPos = some c₂.parcel.mDataPos ∧
        wp (storeData c₂.parcel.mDataPos text) (fun _ c' =>
          wp (storeData (c₂.parcel.mDataPos + text.length) [0]) (fun _ => Q STATUS_OK) InCall c')
          InCall c₃ := by
    intro c₂ c₃ s hroom a hput
    have hin : c₂.parcel.mDataPos + (text ++ [0]).length ≤ c₂.parcel.cells.length := by
      rw [hdata, s.data]
      omega
    have hplace : c₂.parcel.place c₂.parcel.mDataPos = some c₂.parcel.mDataPos := by
      rcases s.toFramed.place c₂.parcel.mDataPos with hplace | ⟨-, hzero⟩
      · exact hplace
      · omega
    refine ⟨hplace, ?_⟩
    rw [← hdata] at a
    rw [wp_storeData_twice (by rw [a.length]; exact hin)]
    exact hput _ (a.stores hsmall hin)
  rw [if_pos rfl, wp_bind]
  refine writeInplace.usable h₁.usable (by omega) (fun hbig => absurd hbig (h₁.not_tooMuch hfit₁))
    (fun c' _ hno => absurd h₁.ample hno) (fun hroom c₂ a => ?_) fun hfull hgrow => ?_
  · obtain ⟨hplace, hput⟩ := hstore c₁ c₂ h₁.usable.sound hroom a fun c' st => by
      rw [← hlp] at hfit₁ hroom
      obtain ⟨lands, hrest⟩ := st.lands_with h₁ (by omega) hroom hfit₁
      exact hQ c' (lands₁.trans lands) hrest
    rw [hplace]
    simp only [wp_bind, hcopy, wp_pure]
    exact hput
  · refine rehouse_whatever fun w c₂ c₃ _ r a => ?_
    have hroom : c₂.parcel.mDataPos + padSize (text.length + 1) ≤ c₂.parcel.mDataCapacity := by
      have := le_growthSize c₁.parcel.mDataSize (padSize (text.length + 1))
      rw [r.pos, h₁.pos, r.capacity]
      exact this
    obtain ⟨hplace, hput⟩ := hstore c₂ c₃ r.sound hroom a fun c' st => by
      rw [← hlp] at hfit₁ hfull r
      obtain ⟨lands, hrest⟩ := r.lands_with h₁ hfull hfit₁ st
      exact hQ c' (lands₁.trans lands) hrest
    rw [hplace]
    simp only [wp_bind, hcopy, wp_pure]
    exact hput

end system_binder.Parcel

namespace system_binder.Status

open Parcel

variable {W : Type} {x : Outside W} {c c' : Ctx W}

/-! ## Writing a Status -/

/-- What follows the stack trace. -/
def detail (st : Status) : List (BitVec 32) :=
  if st.mException = EX_SERVICE_SPECIFIC then [st.mErrorCode]
  else if st.mException = EX_PARCELABLE then [0]
  else []

/-- What an exception with the message `text` has behind its code. -/
def encodedException (st : Status) (text : List UInt8) : List UInt8 :=
  encodedString text ++ (wordBytes 4 (0 : BitVec 32) ++ (st.detail.map (wordBytes 4)).flatten)

/-- A Status in a parcel. -/
def encoded (st : Status) (text : List UInt8) : List UInt8 :=
  wordBytes 4 st.mException ++ if st.mException = EX_NONE then [] else st.encodedException text

/-- The pieces in which it is written. -/
def pieces (st : Status) (text : List UInt8) : List Nat :=
  if st.mException = EX_NONE then [4]
  else 4 :: 4 :: padSize (text.length + 1) :: 4 :: st.detail.map fun _ => 4

/-- With room for its pieces a Status is written behind the other data. -/
theorem writeToParcel.lands {st : Status} {text : List UInt8} (h : AtEnd c)
    (hfailed : st.mException ≠ EX_TRANSACTION_FAILED) (htext : st.mMessage.Carries text)
    (hfit : RoomFor (st.pieces text) c.parcel) :
    wp (st.writeToParcel x)
      (fun status c' => status = STATUS_OK ∧ Lands c c' (st.encoded text)) InCall c := by
  unfold writeToParcel
  rw [if_neg hfailed, wp_bind]
  unfold pieces at hfit
  by_cases hnone : st.mException = EX_NONE
  · rw [if_pos hnone] at hfit
    refine writeInt32.lands h hfit fun c₁ lands₁ _ => ?_
    rw [if_neg (by simp), if_pos hnone]
    unfold encoded
    rw [if_pos hnone, List.append_nil]
    exact ⟨rfl, lands₁⟩
  · rw [if_neg hnone] at hfit
    refine writeInt32.lands h hfit fun c₁ lands₁ hfit₁ => ?_
    rw [if_neg (by simp), if_neg hnone, wp_bind]
    refine writeString16.lands htext lands₁.atEnd hfit₁ fun c₂ lands₂ hfit₂ => ?_
    rw [if_neg (by simp), wp_bind]
    refine writeInt32.lands lands₂.atEnd hfit₂ fun c₃ lands₃ hfit₃ => ?_
    have lands := lands₁.trans (lands₂.trans lands₃)
    rw [if_neg (by simp)]
    unfold encoded encodedException
    unfold detail at hfit₃ ⊢
    rw [if_neg hnone]
    split
    · rename_i hspecific
      rw [if_pos hspecific] at hfit₃
      refine writeInt32.lands lands₃.atEnd hfit₃ fun c₄ lands₄ _ => ⟨rfl, ?_⟩
      simpa using lands.trans lands₄
    · rename_i hspecific
      rw [if_neg hspecific] at hfit₃
      split
      · rename_i hparcelable
        rw [if_pos hparcelable] at hfit₃
        refine writeInt32.lands lands₃.atEnd hfit₃ fun c₄ lands₄ _ => ⟨rfl, ?_⟩
        simpa using lands.trans lands₄
      · refine ⟨rfl, ?_⟩
        simpa using lands

end system_binder.Status

namespace system_binder.Parcel

variable {W α : Type} {c : Ctx W} {E : Fault → Prop} {p p' p'' : Parcel}

/-! ## Reads of what stands there -/

/-- From the position on stand the bytes `bs`, inside the data. -/
structure Stands (p : Parcel) (bs : List UInt8) : Prop where
  readable : Readable p
  small : p.mDataSize ≤ INT32_MAX
  inside : p.mDataPos + bs.length ≤ p.mDataSize
  bytes : window p.cells p.mDataPos bs.length = bs

/-- `p'` is `p` with the position `n` bytes further on. -/
structure Past (p p' : Parcel) (n : Nat) : Prop where
  cells : p'.cells = p.cells
  size : p'.mDataSize = p.mDataSize
  pos : p'.mDataPos = p.mDataPos + n

theorem Past.refl (p : Parcel) : Past p p 0 := ⟨rfl, rfl, rfl⟩

theorem Past.trans {n m : Nat} (a : Past p p' n) (b : Past p' p'' m) : Past p p'' (n + m) where
  cells := b.cells.trans a.cells
  size := b.size.trans a.size
  pos := by rw [b.pos, a.pos, Nat.add_assoc]

theorem Stands.pieces {xs ys : List UInt8} (s : Stands p (xs ++ ys)) :
    window p.cells p.mDataPos xs.length = xs ∧
      window p.cells (p.mDataPos + xs.length) ys.length = ys := by
  have hin := s.inside
  have hdata := s.readable.data
  have hbytes := s.bytes
  rw [List.length_append] at hin hbytes
  rw [window_append] at hbytes
  have hlen : (window p.cells p.mDataPos xs.length).length = xs.length :=
    length_window (by omega)
  exact List.append_inj hbytes hlen

theorem Stands.left {xs ys : List UInt8} (s : Stands p (xs ++ ys)) : Stands p xs where
  readable := s.readable
  small := s.small
  inside := by
    have hin := s.inside
    rw [List.length_append] at hin
    omega
  bytes := s.pieces.1

theorem Stands.right {xs ys : List UInt8} (s : Stands p (xs ++ ys)) (h : Past p p' xs.length) :
    Stands p' ys := by
  have hin := s.inside
  rw [List.length_append] at hin
  refine ⟨⟨?_, ?_, ?_⟩, ?_, ?_, ?_⟩
  · rw [h.pos, h.size]
    omega
  · rw [h.size, h.cells]
    exact s.readable.data
  · rw [h.cells]
    exact s.readable.fits
  · rw [h.size]
    exact s.small
  · rw [h.pos, h.size]
    omega
  · rw [h.cells, h.pos]
    exact s.pieces.2

theorem Stands.past_skip {xs ys : List UInt8} (s : Stands p (xs ++ ys))
    (hlen : xs.length ≤ 2 ^ 32) : Past p (skip xs.length p) xs.length := by
  rw [s.readable.skip_eq hlen]
  exact ⟨rfl, rfl, rfl⟩

/-- A word that stands there is read. -/
theorem readInt32.stands {Q : Int × BitVec 32 → Ctx W → Prop} {old v : BitVec 32}
    {rest : List UInt8} (s : Stands c.parcel (wordBytes 4 v ++ rest))
    (hQ : ∀ c', Past c.parcel c'.parcel 4 → Q (STATUS_OK, v) c') :
    wp (readInt32 old) Q E c := by
  have h4 : (wordBytes 4 v).length = 4 := length_wordBytes 4 v
  have hin := s.left.inside
  have hbytes := s.left.bytes
  have hpast := s.past_skip (by omega)
  rw [h4] at hin hbytes hpast
  rw [readInt32.spec s.readable, if_pos hin, hbytes, bytesWord_wordBytes (by rfl : 32 = 8 * 4)]
  exact hQ _ hpast

theorem Stands.stringStands {text : List UInt8} (hfits : text.length ≤ 63)
    (s : Stands p (encodedString text)) :
    StringStands p text ∧ (encodedString text).length = 4 + padSize (text.length + 1) := by
  have hsmall : (text ++ [(0 : UInt8)]).length ≤ INT32_MAX := by
    rw [List.length_append, List.length_singleton]
    unfold INT32_MAX
    omega
  have hpad := padSize_of_le hsmall
  have h4 : (wordBytes 4 (BitVec.ofNat 32 text.length)).length = 4 := length_wordBytes 4 _
  have hp := length_padded hsmall
  rw [List.length_append, List.length_singleton] at hpad hp
  have hlen : (encodedString text).length = 4 + padSize (text.length + 1) := by
    unfold encodedString
    rw [List.length_append, h4, hp]
  have hin := s.inside
  rw [hlen, hpad] at hin
  have hword := s.left.bytes
  rw [h4] at hword
  have hrest := s.pieces.2
  rw [h4] at hrest
  unfold padded at hrest
  rw [List.length_append, window_append] at hrest
  have htext : (window p.cells (p.mDataPos + 4) (text ++ [(0 : UInt8)]).length).length =
      (text ++ [(0 : UInt8)]).length := by
    have hdata := s.readable.data
    rw [List.length_append, List.length_singleton]
    exact length_window (by omega)
  have hbytes := (List.append_inj hrest htext).1
  rw [List.length_append, List.length_singleton] at hbytes
  exact ⟨⟨hword, hbytes, by omega, by omega⟩, hlen⟩

/-- A string that stands there is read. -/
theorem readString16_to.stands {Q : Int × BinderString → Ctx W → Prop} {str : BinderString}
    {text rest : List UInt8} (hfits : text.length ≤ 63) (h0 : 0 ∉ text)
    (s : Stands c.parcel (encodedString text ++ rest))
    (hQ : ∀ c', Past c.parcel c'.parcel (encodedString text).length →
      Q (STATUS_OK, str.init (some text)) c') :
    wp (readString16_to str) Q E c := by
  obtain ⟨hstands, hlen⟩ := s.left.stringStands hfits
  have hpad : padSize (text.length + 1) ≤ 68 := by
    rw [padSize_of_le (by unfold INT32_MAX; omega)]
    omega
  have hin := s.left.inside
  rw [readString16_to.spec s.readable, if_pos hstands.stringInside, if_pos hstands.terminated,
    textAt_eq h0 hstands.bytes]
  apply hQ
  rw [Ctx.parcel_mapParcel, Ctx.parcel_mapHeap, hstands.toNat_length, hlen,
    s.readable.skip_eq (by decide)]
  have r₄ : Readable (ahead 4 c.parcel) := s.readable.ahead (by omega)
  rw [r₄.skip_eq (by omega)]
  exact ⟨rfl, rfl, by unfold ahead; dsimp only; omega⟩

/-- A block that says it is empty stands there: it is passed over, or, where a block is always
passed over, nothing is. -/
theorem skipBlock.stands {Q : Int × Status → Ctx W → Prop} {always : Bool} {st : Status}
    {next : Prog (Ctx W) Fault (Int × Status)} {rest : List UInt8}
    (s : Stands c.parcel (wordBytes 4 (0 : BitVec 32) ++ rest))
    (hQ : ∀ c', Past c.parcel c'.parcel (if always = true then 0 else 4) → wp next Q E c') :
    wp (Status.skipBlock always st next) Q E c := by
  have h4 : (wordBytes 4 (0 : BitVec 32)).length = 4 := length_wordBytes 4 _
  have hin := s.left.inside
  have hbytes := s.left.bytes
  rw [h4] at hin hbytes
  have hword : wordHere c.parcel = 0 := by
    unfold wordHere
    rw [hbytes, bytesWord_wordBytes (by rfl : 32 = 8 * 4)]
  have hblock : blockHere c.parcel = (STATUS_OK, 0) := by
    unfold blockHere
    rw [if_pos hin, hword, if_neg (by simp)]
    rfl
  have hsmall : ¬INT32_MAX < avail c.parcel := by
    have := s.small
    unfold avail
    omega
  have hafter := afterSize_whole s.readable hblock
  unfold Status.skipBlock dataPosition
  simp only [wp_bind, wp_thisParcel, wp_pure]
  rw [blockSize.spec s.readable, if_neg hsmall, hblock]
  dsimp only
  rw [if_neg (by simp)]
  unfold Status.moveOver
  cases always with
  | true =>
    have hpos : ¬INT32_MAX < c.parcel.mDataPos + 0 := by
      have := s.small
      have := s.readable.pos
      omega
    rw [wp_bind, if_pos (.inr rfl), setDataPosition.spec_all, if_neg hpos]
    apply hQ
    rw [Ctx.parcel_mapParcel, hafter]
    exact ⟨rfl, rfl, rfl⟩
  | false =>
    rw [wp_bind, if_neg (by simp), wp_pure]
    apply hQ
    rw [hafter]
    exact ⟨rfl, rfl, rfl⟩

end system_binder.Parcel

namespace system_binder.BinderString

/-- A copied record carries what the other one does. -/
theorem Carries.dup {str other : BinderString} {text : List UInt8} (h : other.Carries text)
    (hroom : other.mSize ≤ STRING_INIT_CAPACITY) : (str.withBytesOf other hroom).Carries text where
  size := h.size
  fits := h.fits
  bytes := by
    have hin : 0 + text.length ≤ str.mData.length := by
      rw [str.room]
      have := h.fits
      omega
    have hsame := window_overlay_same hin
    have hother : other.mData.take other.mSize = text := by rw [h.size, h.bytes]
    show (overlay str.mData 0 (other.mData.take other.mSize)).take text.length = text
    rw [hother]
    exact hsame

end system_binder.BinderString

namespace system_binder.Status

open Parcel

variable {W : Type} {x : Outside W} {c : Ctx W} {E : Fault → Prop}

/-! ## Reading a Status -/

/-- What a reader gets of a Status with the message `text`. -/
structure Received (st : Status) (text : List UInt8) (got : Status) : Prop where
  exception : got.mException = st.mException
  message : st.mException ≠ EX_NONE → got.mMessage.Carries text
  code : st.mException = EX_SERVICE_SPECIFIC → got.mErrorCode = st.mErrorCode

/-- The bytes of a Status that a reader leaves behind the position. -/
def missed (st : Status) : Nat := if st.mException = EX_PARCELABLE then 4 else 0

theorem indeterminateString.spec {Q : BinderString → Ctx W → Prop}
    (hQ : ∀ str c', c'.parcel = c.parcel → Q str c') : wp indeterminateString Q E c :=
  hQ _ _ rfl

theorem readDetails.stands {Q : Int × Status → Ctx W → Prop} {st got : Status}
    (hsame : got.mException = st.mException)
    (s : Stands c.parcel (st.detail.map (wordBytes 4)).flatten)
    (hQ : ∀ (code : BitVec 32) (n : Nat) c', Past c.parcel c'.parcel n →
      n + st.missed = (st.detail.map (wordBytes 4)).flatten.length →
      (st.mException = EX_SERVICE_SPECIFIC → code = st.mErrorCode) →
      Q (STATUS_OK, { got with mErrorCode := code }) c') :
    wp (readDetails got) Q E c := by
  unfold detail at s hQ
  unfold missed at hQ
  obtain ⟨exception, old, message⟩ := got
  cases hsame
  unfold readDetails
  by_cases hspecific : st.mException = EX_SERVICE_SPECIFIC
  · have hother : st.mException ≠ EX_PARCELABLE := by
      rw [hspecific]
      decide
    rw [if_pos hspecific] at s
    rw [if_pos hspecific, if_neg hother] at hQ
    rw [if_pos hspecific, wp_bind]
    refine readInt32.stands s fun c' past => ?_
    dsimp only
    rw [if_neg (by simp)]
    exact hQ _ _ _ past (by simp [length_wordBytes]) fun _ => rfl
  · rw [if_neg hspecific] at s hQ
    rw [if_neg hspecific]
    by_cases hparcelable : st.mException = EX_PARCELABLE
    · rw [if_pos hparcelable] at s hQ
      rw [if_pos hparcelable]
      refine skipBlock.stands s fun c' past => ?_
      rw [if_pos rfl] at past
      refine hQ old _ _ past ?_ fun h => absurd h hspecific
      rw [if_pos hparcelable]
      simp [length_wordBytes]
    · rw [if_neg hparcelable] at s hQ
      rw [if_neg hparcelable]
      refine hQ old _ _ (.refl _) ?_ fun h => absurd h hspecific
      rw [if_neg hparcelable]
      rfl

theorem readException.stands {st got : Status} {text : List UInt8} (hfits : text.length ≤ 63)
    (h0 : 0 ∉ text) (hsame : got.mException = st.mException)
    (s : Stands c.parcel (st.encodedException text)) :
    wp (readException got) (fun r c' => r.1 = STATUS_OK ∧ st.Received text r.2 ∧
      ∃ n, Past c.parcel c'.parcel n ∧ n + st.missed = (st.encodedException text).length) E c := by
  unfold encodedException at s ⊢
  have hcarries : ∀ str : BinderString, (str.init (some text)).Carries text :=
    fun str => str.init_carries hfits
  unfold readException
  rw [wp_bind]
  refine indeterminateString.spec fun str c₀ hsame₀ => ?_
  rw [← hsame₀] at s ⊢
  rw [wp_bind]
  refine readString16_to.stands hfits h0 s fun c₁ past₁ => ?_
  have hroom : (str.init (some text)).mSize ≤ STRING_INIT_CAPACITY := Nat.le_succ_of_le hfits
  dsimp only
  rw [if_neg (by simp), wp_bind, BinderString.dup.spec hroom]
  have s₁ : Stands c₁.parcel _ := s.right past₁
  refine skipBlock.stands s₁ fun c₂ past₂ => ?_
  rw [if_neg (by simp)] at past₂
  have s₂ := s₁.right ((length_wordBytes 4 (0 : BitVec 32)).symm ▸ past₂)
  refine readDetails.stands hsame s₂ fun code n c₃ past₃ hn hcode => ?_
  have past := past₁.trans (past₂.trans past₃)
  refine ⟨rfl, ⟨hsame, fun _ => (hcarries _).dup hroom, hcode⟩, _, past, ?_⟩
  rw [List.length_append, List.length_append, length_wordBytes]
  omega

/-- A Status that stands at the position is read; the position is behind it, but for the bytes
missed. -/
theorem readFromParcel.stands {st got : Status} {text : List UInt8} (hfits : text.length ≤ 63)
    (h0 : 0 ∉ text) (hheader : st.mException ≠ EX_HAS_REPLY_HEADER)
    (s : Stands c.parcel (st.encoded text)) :
    wp (readFromParcel got) (fun r c' => r.1 = STATUS_OK ∧ st.Received text r.2 ∧
      ∃ n, Past c.parcel c'.parcel n ∧ n + st.missed = (st.encoded text).length) E c := by
  unfold encoded at s ⊢
  unfold readFromParcel
  rw [wp_bind]
  refine readInt32.stands s fun c₁ past₁ => ?_
  dsimp only
  rw [if_neg (by simp), if_neg hheader]
  have s₁ := s.right ((length_wordBytes 4 st.mException).symm ▸ past₁)
  by_cases hnone : st.mException = EX_NONE
  · have hother : st.mException ≠ EX_PARCELABLE := by
      rw [hnone]
      decide
    rw [if_pos hnone, if_pos hnone]
    refine ⟨rfl, ⟨rfl, fun h => absurd hnone h, fun h => ?_⟩, _, past₁, ?_⟩
    · rw [hnone] at h
      exact absurd h (by decide)
    · unfold missed
      rw [if_neg hother, List.length_append, length_wordBytes]
      rfl
  · rw [if_neg hnone] at s₁
    rw [if_neg hnone, if_neg hnone]
    have hsame : ({ got with mException := st.mException } : Status).mException =
        st.mException := rfl
    refine wp_imp (readException.stands hfits h0 hsame s₁) fun r c₂ h => ?_
    obtain ⟨hok, received, n, past₂, hn⟩ := h
    refine ⟨hok, received, _, past₁.trans past₂, ?_⟩
    rw [List.length_append, length_wordBytes]
    omega

/-! ## The way -/

/-- A Status written at the position and read from there into `got`: the status of the write, the
position behind what was written, the status of the read and what was read. -/
def travel (x : Outside W) (st got : Status) : Prog (Ctx W) Fault (Int × Nat × Int × Status) := do
  let start ← dataPosition
  let sent ← st.writeToParcel x
  let stop ← dataPosition
  setDataPosition start
  let (received, got) ← readFromParcel got
  pure (sent, stop, received, got)

/-- The Status arrives whole, and the position is behind it. -/
def Arrives (st : Status) (text : List UInt8) (r : Int × Nat × Int × Status) (c' : Ctx W) : Prop :=
  r.1 = STATUS_OK ∧ r.2.2.1 = STATUS_OK ∧ st.Received text r.2.2.2 ∧ c'.parcel.mDataPos = r.2.1

/-- Behind the other data of a parcel, a Status arrives exactly where its exception is no
parcelable: of a parcelable the reader comes back to the block that says it is empty. -/
theorem a_status_arrives_unless_parcelable (x : Outside W) (c : Ctx W) (st got : Status)
    (text : List UInt8) (hend : AtEnd c) (hfit : RoomFor (st.pieces text) c.parcel)
    (hfailed : st.mException ≠ EX_TRANSACTION_FAILED)
    (hheader : st.mException ≠ EX_HAS_REPLY_HEADER)
    (htext : st.mMessage.Carries text) (hfits : text.length ≤ 63) (h0 : 0 ∉ text) :
    wp (travel x st got)
      (fun r c' => st.Arrives text r c' ↔ st.mException ≠ EX_PARCELABLE) InCall c := by
  unfold travel dataPosition
  simp only [wp_bind, wp_thisParcel, wp_pure]
  refine wp_imp (writeToParcel.lands hend hfailed htext hfit) fun sent c₁ h => ?_
  obtain ⟨hsent, lands⟩ := h
  have hpos : c.parcel.mDataPos = c.parcel.mDataSize := hend.pos
  have hsize := lands.size
  have hsmall : c₁.parcel.mDataSize ≤ INT32_MAX :=
    Nat.le_trans lands.isLocal.size lands.isLocal.capacity
  rw [setDataPosition.spec_all, if_neg (by omega)]
  generalize hback : (c₁.mapParcel fun p => { p with
    mDataPos := c.parcel.mDataPos, mNextObjectHint := 0, mObjectsSorted := false }) = c₂
  have hcells : c₂.parcel.cells = c₁.parcel.cells := by rw [← hback]; rfl
  have hsize₂ : c₂.parcel.mDataSize = c₁.parcel.mDataSize := by rw [← hback]; rfl
  have hpos₂ : c₂.parcel.mDataPos = c.parcel.mDataPos := by rw [← hback]; rfl
  have s : Stands c₂.parcel (st.encoded text) := by
    refine ⟨⟨by omega, ?_, ?_⟩, by omega, by omega, ?_⟩
    · rw [hcells, hsize₂]
      exact lands.isLocal.readable.data
    · rw [hcells]
      exact lands.isLocal.readable.fits
    · have hbytes := lands.bytes
      rw [hsize, window_append, Nat.zero_add] at hbytes
      have hlen : (window c₁.parcel.cells 0 c.parcel.mDataSize).length =
          (window c.parcel.cells 0 c.parcel.mDataSize).length := by
        have hdata := lands.isLocal.readable.data
        have hdata₀ := hend.usable.sound.data
        have hsize₀ := hend.usable.sound.size
        rw [length_window (by omega), length_window (by omega)]
      rw [hcells, hpos₂, hpos]
      exact (List.append_inj hbytes hlen).2
  refine wp_imp (readFromParcel.stands hfits h0 hheader s) fun r c₃ h => ?_
  obtain ⟨hok, received, n, past, hn⟩ := h
  have hreached := past.pos
  have hstop : c₁.parcel.mDataPos = c.parcel.mDataPos + (st.encoded text).length := by
    rw [lands.pos, hsize, hpos]
  unfold missed at hn
  constructor
  · rintro ⟨-, -, -, hthere⟩ hparcelable
    have hthere : c₃.parcel.mDataPos = c₁.parcel.mDataPos := hthere
    rw [if_pos hparcelable] at hn
    omega
  · intro hother
    rw [if_neg hother] at hn
    refine ⟨hsent, hok, received, ?_⟩
    show c₃.parcel.mDataPos = c₁.parcel.mDataPos
    omega

theorem empty_atEnd : AtEnd (⟨empty, plenty, ()⟩ : Ctx Unit) :=
  ⟨.inl empty_local, rfl, fun n h => by cases h⟩

/-- A Status with the message "hi". -/
def withHi (exception : BitVec 32) : Status := ⟨exception, 0, hi⟩

set_option maxRecDepth 4000 in
/-- An illegal argument, with its message. -/
theorem a_status_arrives_unless_parcelable_with_an_illegal_argument :
    wp (travel silent (withHi EX_ILLEGAL_ARGUMENT) (withHi EX_NONE))
      (fun r c' => (withHi EX_ILLEGAL_ARGUMENT).Arrives [104, 105] r c' ↔
        EX_ILLEGAL_ARGUMENT ≠ EX_PARCELABLE) InCall (⟨empty, plenty, ()⟩ : Ctx Unit) := by
  have hfit : RoomFor ((withHi EX_ILLEGAL_ARGUMENT).pieces [104, 105]) empty := by decide +kernel
  have hfailed : EX_ILLEGAL_ARGUMENT ≠ EX_TRANSACTION_FAILED := by decide
  have hheader : EX_ILLEGAL_ARGUMENT ≠ EX_HAS_REPLY_HEADER := by decide
  have hletters : (0 : UInt8) ∉ [(104 : UInt8), 105] := by simp
  exact a_status_arrives_unless_parcelable silent _ _ _ _ empty_atEnd hfit hfailed hheader
    hi_holds.carries (by simp) hletters

/-- Of a parcelable with the message "hi" the reader stops 4 bytes before the end. -/
theorem a_parcelable_status_is_not_passed :
    ∃ r c', travel silent (withHi EX_PARCELABLE) (withHi EX_NONE)
      (⟨empty, plenty, ()⟩ : Ctx Unit) = .ok (r, c') ∧
      ¬(withHi EX_PARCELABLE).Arrives [104, 105] r c' := by
  obtain ⟨r, c', hrun, hpos⟩ : ∃ (r : Int × Nat × Int × Status) (c' : Ctx Unit),
      travel silent (withHi EX_PARCELABLE) (withHi EX_NONE) ⟨empty, plenty, ()⟩ = .ok (r, c') ∧
        (r.2.1 = 20 ∧ c'.parcel.mDataPos = 16) := wp_never_iff.mp (by decide +kernel)
  refine ⟨r, c', hrun, ?_⟩
  rintro ⟨-, -, -, hthere⟩
  omega

end system_binder.Status
