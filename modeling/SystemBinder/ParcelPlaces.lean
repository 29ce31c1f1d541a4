-- Which writes say whether they stored what they were given. A growth is made for the end of the
-- data, and says nothing of the position, which may be anywhere.
import SystemBinder.ParcelStores

open prog memory

namespace system_binder.Parcel

variable {W : Type} {x : Outside W} {c c₁ c' : Ctx W} {E : Fault → Prop}

/-- A parcel whose memory is as it says, and whose position is one that `Parcel_setDataPosition`
takes. The objects of a buffer of the driver lie inside its data. -/
structure Positioned (p : Parcel) : Prop extends Framed p where
  reach : p.mDataPos ≤ INT32_MAX
  whole : p.mOwner.isSome = true → WholeObjects p 0 p.mObjectsSize

theorem Usable.positioned {p : Parcel} (u : Usable p) : Positioned p where
  toFramed := u.sound.toFramed
  reach := Nat.le_trans u.pos (Nat.le_trans u.size u.capacity)
  whole := by
    intro ho
    rcases u with l | b
    · rw [l.owner] at ho
      exact absurd ho Bool.false_ne_true
    · exact b.whole

theorem Positioned.sz_pos {p : Parcel} {n : Nat} (f : Positioned p) (hn : n ≤ 2 ^ 32) :
    sz (p.mDataPos + n) = p.mDataPos + n := by
  have hreach := f.reach
  have hmax : INT32_MAX = 2 ^ 31 - 1 := rfl
  have hsize : SIZE_MAX = 2 ^ 64 - 1 := rfl
  exact sz_of_le (by omega)

/-! ## When there is a place -/

/-- A growth for `n` bytes stays in the limit and reaches behind `n` bytes at the position, which
it leaves where it is. -/
def Reaches (p : Parcel) (n : Nat) : Prop :=
  growthSize p.mDataSize n ≤ INT32_MAX ∧ p.mDataPos + n ≤ growthSize p.mDataSize n ∧ StartsEmpty p

/-- There is room for `n` bytes at the position, or a growth for them is asked for and reaches. -/
def Fits (p : Parcel) (n : Nat) : Prop :=
  p.mDataPos + n ≤ p.mDataCapacity ∨
    p.mDataSize < (p.mDataSize + n) * 3 / 2 ∧ Reaches p n

/-- A blob is too long to be taken, or it fits with its padding. -/
def BlobFits (p : Parcel) (len : Nat) : Prop := INT32_MAX < len ∨ Fits p (padSize len)

/-- How long the buffer is once the length word of a string is stored. -/
def wordCapacity (p : Parcel) : Nat :=
  if p.mDataPos + 4 ≤ p.mDataCapacity then p.mDataCapacity else growthSize p.mDataSize 4

/-- Behind the length word there is room for a text of `len` bytes and its NUL, or a growth for
them stays in the limit. -/
def FitsBehindWord (p : Parcel) (len : Nat) : Prop :=
  p.mDataPos + 4 + padSize (len + 1) ≤ wordCapacity p ∨
    growthSize (max p.mDataSize (p.mDataPos + 4)) (padSize (len + 1)) ≤ INT32_MAX

/-- The length word of a string fits, and its text behind it. Or the growth for the word is over
the limit, which `Parcel_writeInt32` reports. -/
def StringFits (p : Parcel) (len : Nat) : Prop :=
  Fits p 4 ∧ FitsBehindWord p len ∨
    p.mDataCapacity < p.mDataPos + 4 ∧ INT32_MAX < growthSize p.mDataSize 4

theorem Fits.room {n : Nat} (h : Fits c.parcel n) (r : Ready c c₁ n) :
    c₁.parcel.mDataPos + n ≤ c₁.parcel.mDataCapacity := by
  rcases r with ⟨rfl, hroom⟩ | ⟨hfull, -, f⟩
  · exact hroom
  · rcases h with hroom | ⟨-, -, hreach, -⟩
    · exact absurd hroom (Nat.not_le_of_lt hfull)
    · rw [f.pos, f.capacity]
      exact hreach

/-! ## What a growth does -/

/-- A growth that is not asked for, or is over the limit, changes nothing. -/
theorem growData.refuses {n : Nat} (f : Framed c.parcel)
    (h : (c.parcel.mDataSize + n) * 3 / 2 ≤ c.parcel.mDataSize ∨
      INT32_MAX < growthSize c.parcel.mDataSize n) :
    wp (growData x n) (fun r c' => r ≠ STATUS_OK ∧ c' = c) E c := by
  by_cases hlong : INT32_MAX < n
  · unfold growData
    rw [if_pos hlong]
    exact ⟨by decide, rfl⟩
  by_cases hask : c.parcel.mDataSize < (c.parcel.mDataSize + n) * 3 / 2
  · rw [growData.continues f hask (Nat.le_of_not_lt hlong)]
    unfold continueWrite
    rw [if_pos (h.resolve_left (Nat.not_le_of_lt hask))]
    exact ⟨by decide, rfl⟩
  · unfold growData
    simp only [wp_ite, wp_pure, wp_bind, wp_thisParcel]
    refine ⟨fun _ => ⟨by decide, trivial⟩, fun _ => ⟨fun _ => ⟨by decide, trivial⟩, fun _ =>
      ⟨fun _ => ⟨by decide, trivial⟩, fun _ => ⟨fun _ => ⟨by decide, trivial⟩, fun hmore => ?_⟩⟩⟩⟩
    exact absurd (Nat.lt_of_not_le hmore) hask

/-- Own data that is too small gets larger, and a buffer of the driver is left for a copy. Only a
function outside fails. -/
theorem growData.widens {n : Nat} (f : Positioned c.parcel)
    (hask : c.parcel.mDataSize < (c.parcel.mDataSize + n) * 3 / 2)
    (hfit : growthSize c.parcel.mDataSize n ≤ INT32_MAX) (hstarts : StartsEmpty c.parcel)
    (hcap : c.parcel.mOwner = none → c.parcel.mDataCapacity < growthSize c.parcel.mDataSize n)
    (hcalls : wp (possess x c.parcel c.parcel.mObjectsSize) (fun _ _ => True)
      (fun e => E (.inCall e)) c.world) :
    wp (growData x n) (fun r c' => r = STATUS_NO_MEMORY ∧ OutOfMemory c c' ∧ ¬Ample c.heap ∨
      r = STATUS_OK ∧ Fitted c c' (growthSize c.parcel.mDataSize n)) E c := by
  have hgrow := le_growthSize c.parcel.mDataSize n
  have hn : n ≤ INT32_MAX := by omega
  rw [growData.continues f.toFramed hask hn]
  by_cases howner : c.parcel.mOwner = none
  · rw [continueWrite.spec_grow f.toFramed hstarts howner hfit (hcap howner)]
    rcases hf : c.heap.fresh c.heap.requests with _ | g
    · exact .inl ⟨rfl, ⟨rfl, rfl, rfl⟩, fun ha => ha _ hf⟩
    · exact .inr ⟨rfl, grown_fitted f.toFramed howner g hfit (Nat.le_of_lt (hcap howner))⟩
  · have ho : c.parcel.mOwner.isSome = true := Option.isSome_iff_ne_none.mpr howner
    have hpositive : growthSize c.parcel.mDataSize n ≠ 0 := by
      unfold growthSize
      omega
    have hkept : kept c.parcel (growthSize c.parcel.mDataSize n) = c.parcel.mObjectsSize := by
      unfold kept
      rw [if_neg (by omega)]
    unfold continueWrite
    rw [if_neg (Nat.not_lt_of_le hfit)]
    simp only [wp_bind, wp_thisParcel]
    rw [countKept.spec f.objects, if_pos ho, hkept]
    refine continueOwned.spec f.toFramed ho (f.whole ho) hpositive (Nat.le_refl _) ?_ ?_
    · exact fun c' hno ha => .inl ⟨rfl, hno, ha⟩
    · refine wp_imp hcalls fun _ _ _ c' t _ => .inr ⟨rfl, ?_⟩
      exact t.fitted f.toFramed ho hfit (by omega)

theorem growData.reaches {n : Nat} (f : Positioned c.parcel)
    (hfull : c.parcel.mDataCapacity < c.parcel.mDataPos + n) (h : Fits c.parcel n)
    (hcalls : wp (possess x c.parcel c.parcel.mObjectsSize) (fun _ _ => True)
      (fun e => E (.inCall e)) c.world) :
    wp (growData x n) (fun r c' => r = STATUS_NO_MEMORY ∧ OutOfMemory c c' ∧ ¬Ample c.heap ∨
      r = STATUS_OK ∧ Ready c c' n) E c := by
  obtain ⟨hask, hfit, hreach, hstarts⟩ := h.resolve_left (Nat.not_le_of_lt hfull)
  have hcap : c.parcel.mDataCapacity < growthSize c.parcel.mDataSize n := by omega
  refine wp_imp (growData.widens f hask hfit hstarts (fun _ => hcap) hcalls) ?_
  rintro r c' (hno | ⟨hr, hfitted⟩)
  · exact .inl hno
  · exact .inr ⟨hr, .inr ⟨hfull, hfit, hfitted⟩⟩

/-! ## Writes that fit -/

/-- The encoding stands at the old position, inside the buffer, and the position moved over
exactly it. -/
structure Stored (c c' : Ctx W) (bs : List UInt8) : Prop where
  pos : c'.parcel.mDataPos = c.parcel.mDataPos + bs.length
  room : c'.parcel.mDataPos ≤ c'.parcel.mDataCapacity
  bytes : window c'.parcel.cells c.parcel.mDataPos bs.length = bs

/-- Whatever memory there is: the write stays inside the buffer, and where it returns OK its
encoding was stored. What is called on the way may fail. -/
def Reports (m : Outside W → Prog (Ctx W) Fault Int) (c : Ctx W) (bs : List UInt8) : Prop :=
  ∀ x heap, wp (m x) (fun r c' => r = STATUS_OK → Stored { c with heap := heap } c' bs) InCall
    { c with heap := heap }

theorem Stores.stored {bs : List UInt8} (s : Framed c.parcel)
    (hroom : c.parcel.mDataPos + bs.length ≤ c.parcel.mDataCapacity) (st : Stores c c' bs) :
    Stored c c' bs where
  pos := st.pos
  room := by
    rw [st.pos, st.capacity]
    exact hroom
  bytes := by
    rw [st.cells]
    exact window_overlay_same (by rwa [s.data])

theorem Ready.stored {bs : List UInt8} (s : Framed c.parcel) (r : Ready c c₁ bs.length)
    (hroom : c₁.parcel.mDataPos + bs.length ≤ c₁.parcel.mDataCapacity) (st : Stores c₁ c' bs) :
    Stored c c' bs := by
  have h := st.stored (r.framed s) hroom
  exact ⟨r.pos ▸ h.pos, h.room, r.pos ▸ h.bytes⟩

/-- The bytes are stored in the place that was claimed for them. Without a buffer there are none. -/
theorem Ready.claimed {data : List UInt8} (s : Framed c.parcel)
    (hlen : data.length ≤ INT32_MAX) (r : Ready c c₁ (padded data).length)
    (hroom : c₁.parcel.mDataPos + (padded data).length ≤ c₁.parcel.mDataCapacity)
    (a : Claims c₁ c' data.length) :
    (c₁.parcel.place c.parcel.mDataPos = some c.parcel.mDataPos ∧
      c.parcel.mDataPos + data.length ≤ c'.parcel.cells.length ∧
      Stores c₁ (c'.mapParcel fun p => p.stored c.parcel.mDataPos data) (padded data)) ∨
    c₁.parcel.place c.parcel.mDataPos = none ∧ data = [] ∧ Stores c₁ c' (padded data) := by
  have s₁ := r.framed s
  have hpad := padSize_of_le hlen
  rw [length_padded hlen] at hroom
  have hin : c₁.parcel.mDataPos + data.length ≤ c₁.parcel.cells.length := by
    rw [s₁.data]
    omega
  rcases s₁.place c.parcel.mDataPos with hplace | ⟨hnull, hzero⟩
  · refine .inl ⟨hplace, ?_, ?_⟩
    · rw [a.length, ← r.pos]
      exact hin
    · rw [← r.pos]
      exact a.stores hlen hin
  · have hnil : data = [] := List.length_eq_zero_iff.mp (by omega)
    have st := a.stores hlen hin
    have hsame : (c'.mapParcel fun p => p.stored c₁.parcel.mDataPos data) = c' := by
      simp only [hnil, stored_empty, Ctx.mapParcel]
    rw [hsame] at st
    exact .inr ⟨hnull, hnil, st⟩

/-- A place that fits is claimed, or there is no memory for it. -/
theorem writeInplace.fits {len : Nat} (f : Positioned c.parcel) (hlen : len ≤ INT32_MAX)
    (h : Fits c.parcel (padSize len)) :
    wp (writeInplace x len) (fun o c' =>
      (∃ c₁, Ready c c₁ (padSize len) ∧ Claims c₁ c' len ∧
        o = c₁.parcel.place c.parcel.mDataPos) ∨ o = none ∧ OutOfMemory c c') InCall c := by
  have hpad := padSize_of_le hlen
  have hsz := f.sz_pos (n := padSize len) (by unfold INT32_MAX at hlen; omega)
  have hclaim : ∀ c₁, Ready c c₁ (padSize len) → wp (claimInplace len) (fun o c' =>
      (∃ c₁, Ready c c₁ (padSize len) ∧ Claims c₁ c' len ∧
        o = c₁.parcel.place c.parcel.mDataPos) ∨ o = none ∧ OutOfMemory c c') InCall c₁ := by
    intro c₁ ready
    refine claimInplace.claims (ready.framed f.toFramed) hlen (h.room ready) fun c' a => ?_
    exact .inl ⟨c₁, ready, a, by rw [ready.pos]⟩
  unfold writeInplace
  rw [if_neg (Nat.not_lt_of_le hlen)]
  simp only [wp_bind, wp_thisParcel, hsz]
  rw [if_neg (by omega)]
  simp only [wp_bind, wp_ite, wp_pure]
  refine ⟨fun hroom => hclaim c (.inl ⟨rfl, hroom⟩), fun hfull => ?_⟩
  refine wp_imp (growData.reaches f (Nat.lt_of_not_le hfull) h
    (wp_of_all (fun _ _ => trivial) fun e => ⟨e, rfl⟩)) ?_
  rintro r c₁ (⟨rfl, hno, -⟩ | ⟨rfl, ready⟩)
  · exact ⟨fun he => absurd he (by decide), fun _ => .inr ⟨trivial, hno⟩⟩
  · exact ⟨fun _ => hclaim c₁ ready, fun hne => absurd rfl hne⟩

/-- `Parcel_write` stores the padded blob, or says that there is no memory, or that it is too
long. -/
theorem write.reports {data : List UInt8} (f : Positioned c.parcel)
    (h : BlobFits c.parcel data.length) :
    wp (write x data) (fun r c' => r = STATUS_OK → Stored c c' (padded data)) InCall c := by
  unfold write
  rw [wp_ite]
  refine ⟨fun _ hok => absurd hok (by decide), fun hlong => ?_⟩
  have hlen := Nat.le_of_not_lt hlong
  have hfits := h.resolve_left hlong
  have hlp : (padded data).length = padSize data.length := length_padded hlen
  rw [wp_bind]
  refine wp_imp (writeInplace.fits f hlen hfits) ?_
  rintro o c' (⟨c₁, ready, a, rfl⟩ | ⟨rfl, hno⟩)
  · have hroom := hfits.room ready
    rw [← hlp] at ready hroom
    rcases ready.claimed f.toFramed hlen hroom a with ⟨hplace, hin, st⟩ | ⟨hnull, -, st⟩
    · rw [hplace]
      simp only [wp_bind, wp_pure]
      rw [wp_storeData hin]
      exact fun _ => ready.stored f.toFramed hroom st
    · rw [hnull]
      exact fun _ => ready.stored f.toFramed hroom st
  · intro hok
    have herror : c'.parcel.mError = STATUS_NO_MEMORY := congrArg Parcel.mError hno.parcel
    exact absurd (herror.symm.trans hok) (by decide)

/-! ## Strings that fit -/

theorem Stores.whole {bs : List UInt8} {i n : Nat} (s : Framed c.parcel)
    (hroom : c.parcel.mDataPos + bs.length ≤ c.parcel.mDataCapacity) (st : Stores c c' bs)
    (h : WholeObjects c.parcel i n) : WholeObjects c'.parcel i n := by
  intro j hle hlt
  obtain ⟨o, ho, hin⟩ := h j hle hlt
  refine ⟨o, st.table ▸ ho, ?_⟩
  rw [st.cells, length_overlay (by rwa [s.data])]
  exact hin

/-- What the length word of a string leaves. -/
structure WordStored (c c₁ : Ctx W) (word : List UInt8) : Prop where
  stored : Stored c c₁ word
  positioned : Positioned c₁.parcel
  starts : StartsEmpty c₁.parcel
  size : c₁.parcel.mDataSize = max c.parcel.mDataSize (c.parcel.mDataPos + 4)
  capacity : c₁.parcel.mDataCapacity = wordCapacity c.parcel
  error : c₁.parcel.mError = c.parcel.mError
  fresh : c₁.heap.fresh = c.heap.fresh

theorem WordStored.pos {word : List UInt8} (w : WordStored c c₁ word) (h4 : word.length = 4) :
    c₁.parcel.mDataPos = c.parcel.mDataPos + 4 := h4 ▸ w.stored.pos

theorem Ready.word {c₀ : Ctx W} {word : List UInt8} (f : Positioned c.parcel)
    (h4 : word.length = 4) (h : Fits c.parcel 4) (r : Ready c c₀ 4) (st : Stores c₀ c₁ word) :
    WordStored c c₁ word := by
  have hroom : c₀.parcel.mDataPos + word.length ≤ c₀.parcel.mDataCapacity := h4 ▸ h.room r
  have f₀ := r.framed f.toFramed
  have hstored : Stored c c₁ word := (h4 ▸ r : Ready c c₀ word.length).stored f.toFramed hroom st
  have f₁ : Framed c₁.parcel := st.framed f₀ hroom
  have hreach : c₁.parcel.mDataPos ≤ INT32_MAX := Nat.le_trans hstored.room f₁.capacity
  refine ⟨hstored, ⟨f₁, hreach, fun ho => ?_⟩, fun hnull => ?_, ?_, ?_, st.error.trans r.error, ?_⟩
  · rcases r with ⟨rfl, -⟩ | ⟨-, -, hfitted⟩
    · rw [st.objectsSize]
      exact st.whole f₀ hroom (f.whole (st.owner ▸ ho))
    · rw [st.owner, hfitted.owner] at ho
      exact absurd ho Bool.false_ne_true
  · have hzero := (f₁.empty hnull).2.1
    rw [st.capacity] at hzero
    omega
  · rw [st.size, r.size, r.pos, h4]
  · rw [st.capacity]
    unfold wordCapacity
    rcases r with ⟨rfl, hfree⟩ | ⟨hfull, -, hfitted⟩
    · rw [if_pos hfree]
    · rw [if_neg (Nat.not_le_of_lt hfull)]
      exact hfitted.capacity
  · rw [st.heap]
    rcases r with ⟨rfl, -⟩ | ⟨-, -, hfitted⟩
    · rfl
    · exact hfitted.fresh

/-- A length word that fits is stored, or there is no memory for it. -/
theorem writeInt32.fits {val : BitVec 32} (f : Positioned c.parcel) (h : Fits c.parcel 4)
    (hcalls : wp (possess x c.parcel c.parcel.mObjectsSize) (fun _ _ => True)
      (fun e => E (.inCall e)) c.world) :
    wp (writeInt32 x val) (fun r c₁ => r = STATUS_NO_MEMORY ∧ ¬Ample c.heap ∨
      r = STATUS_OK ∧ WordStored c c₁ (wordBytes 4 val)) E c := by
  have h4 : (wordBytes 4 val).length = 4 := length_wordBytes 4 val
  have hsz := f.sz_pos (n := 4) (by decide)
  have hstore : ∀ c₀, Ready c c₀ 4 → wp (storeAligned (wordBytes 4 val)) (fun r c₁ =>
      r = STATUS_NO_MEMORY ∧ ¬Ample c.heap ∨
        r = STATUS_OK ∧ WordStored c c₁ (wordBytes 4 val)) E c₀ := by
    intro c₀ ready
    have hroom : c₀.parcel.mDataPos + (wordBytes 4 val).length ≤ c₀.parcel.mDataCapacity :=
      h4 ▸ h.room ready
    refine storeAligned.stores (ready.framed f.toFramed) hroom fun c₁ st => ?_
    exact .inr ⟨rfl, ready.word f h4 h st⟩
  unfold writeInt32 writeAligned
  simp only [wp_bind, wp_thisParcel, h4, hsz, wp_ite, wp_pure]
  refine ⟨fun hroom => hstore c (.inl ⟨rfl, hroom⟩), fun hfull => ?_⟩
  refine wp_imp (growData.reaches f (Nat.lt_of_not_le hfull) h hcalls) ?_
  rintro r c₀ (⟨rfl, -, ha⟩ | ⟨rfl, ready⟩)
  · exact ⟨fun he => absurd he (by decide), fun _ => .inl ⟨rfl, ha⟩⟩
  · exact ⟨fun _ => hstore c₀ ready, fun hne => absurd rfl hne⟩

/-- A growth for the length word that is over the limit is reported. -/
theorem writeInt32.refuses {val : BitVec 32} (f : Positioned c.parcel)
    (hfull : c.parcel.mDataCapacity < c.parcel.mDataPos + 4)
    (hbig : INT32_MAX < growthSize c.parcel.mDataSize 4) :
    wp (writeInt32 x val) (fun r _ => r ≠ STATUS_OK) E c := by
  have h4 : (wordBytes 4 val).length = 4 := length_wordBytes 4 val
  have hsz := f.sz_pos (n := 4) (by decide)
  unfold writeInt32 writeAligned
  simp only [wp_bind, wp_thisParcel, h4, hsz, wp_ite, wp_pure]
  refine ⟨fun hroom => absurd hroom (Nat.not_le_of_lt hfull), fun _ => ?_⟩
  refine wp_imp (growData.refuses f.toFramed (.inr hbig)) ?_
  exact fun r c' h => ⟨fun hok => absurd hok h.1, fun hne => hne⟩

/-- The text fits behind the length word exactly where the condition on the parcel says so. -/
theorem WordStored.fits_iff {word : List UInt8} {len : Nat} (w : WordStored c c₁ word)
    (h4 : word.length = 4) (hlen : len ≤ 64) :
    Fits c₁.parcel (padSize (len + 1)) ↔ FitsBehindWord c.parcel len := by
  have hpad := padSize_of_le (n := len + 1) (by unfold INT32_MAX; omega)
  have hgrow := le_growthSize (max c.parcel.mDataSize (c.parcel.mDataPos + 4)) (padSize (len + 1))
  unfold Fits Reaches FitsBehindWord
  rw [w.pos h4, w.size, w.capacity]
  constructor
  · rintro (hroom | ⟨-, hfit, -⟩)
    · exact .inl hroom
    · exact .inr hfit
  · rintro (hroom | hfit)
    · exact .inl hroom
    · exact .inr ⟨by omega, hfit, by omega, w.starts⟩

/-- The text and its NUL behind the length word. -/
theorem Stored.text {c₂ : Ctx W} {word data : List UInt8} (h₁ : Stored c c₁ word)
    (f₁ : Framed c₁.parcel) (hpos : c₁.parcel.mDataPos ≤ c₁.parcel.mDataSize)
    (r : Ready c₁ c₂ (padded data).length)
    (hroom : c₂.parcel.mDataPos + (padded data).length ≤ c₂.parcel.mDataCapacity)
    (st : Stores c₂ c' (padded data)) : Stored c c' (word ++ padded data) := by
  have h₂ := r.stored f₁ hroom st
  have hword : window c'.parcel.cells c.parcel.mDataPos word.length = word := by
    have hin : c.parcel.mDataPos + word.length ≤ c₁.parcel.mDataSize := h₁.pos ▸ hpos
    rw [st.others (r.framed f₁) hroom (.inl (by rw [r.pos, h₁.pos])), r.bytes hin]
    exact h₁.bytes
  refine ⟨?_, h₂.room, ?_⟩
  · rw [h₂.pos, h₁.pos, List.length_append, Nat.add_assoc]
  · rw [List.length_append, window_append, hword, ← h₁.pos, h₂.bytes]

/-- The end of `Parcel_writeString16`, at a place for the text or at none. -/
def endString (str : BinderString) (len : Nat) : Option Nat → Prog (Ctx W) Fault Int
  | some data => do
    let text ← str.copyTo len
    storeData data text
    storeData (data + len) [0]
    pure STATUS_OK
  | none => do
    let p ← thisParcel
    pure p.mError

theorem writeString16_eq {str : BinderString} {text : List UInt8} (hstr : str.Carries text) :
    writeString16 x (some str) = (do
      let err ← writeInt32 x (BitVec.ofNat 32 text.length)
      if err = STATUS_OK then do
        let place ← writeInplace x (text.length + 1)
        endString str text.length place
      else pure err) := by
  have hsz : sz (text.length + 1) = text.length + 1 := by
    have hlen : text.length ≤ 64 := hstr.fits
    have hmax : SIZE_MAX = 2 ^ 64 - 1 := rfl
    exact sz_of_le (by omega)
  unfold writeString16
  simp only [hstr.size, hsz]
  rfl

theorem padSize_text {text : List UInt8} (h : text.length ≤ 64) :
    (text ++ [(0 : UInt8)]).length = text.length + 1 ∧
      (padded (text ++ [0])).length = padSize (text.length + 1) ∧
      padSize (text.length + 1) = (text.length + 1 + 3) / 4 * 4 := by
  have hdata : (text ++ [(0 : UInt8)]).length = text.length + 1 := by simp
  have hfit : text.length + 1 ≤ INT32_MAX := by
    unfold INT32_MAX
    omega
  refine ⟨hdata, ?_, padSize_of_le hfit⟩
  rw [length_padded (hdata ▸ hfit), hdata]

theorem length_encodedString {text : List UInt8} (h : text.length ≤ 64) :
    (encodedString text).length = 4 + padSize (text.length + 1) := by
  unfold encodedString
  rw [List.length_append, length_wordBytes, (padSize_text h).2.1]

/-- `Parcel_writeString16` stores the whole encoding, or says that there is no memory. -/
theorem writeString16.reports {str : BinderString} {text : List UInt8} (hstr : str.Carries text)
    (f : Positioned c.parcel) (h : StringFits c.parcel text.length) :
    wp (writeString16 x (some str)) (fun r c' => r = STATUS_OK → Stored c c' (encodedString text))
      InCall c := by
  have h4 := length_wordBytes 4 (BitVec.ofNat 32 text.length)
  have hshort : text.length ≤ 64 := hstr.fits
  obtain ⟨hdata, hlp, -⟩ := padSize_text hshort
  have hfit : (text ++ [(0 : UInt8)]).length ≤ INT32_MAX := by
    rw [hdata]
    unfold INT32_MAX
    omega
  rw [writeString16_eq hstr, wp_bind]
  rcases h with ⟨hword, htext⟩ | ⟨hfull, hbig⟩
  · refine wp_imp (writeInt32.fits f hword
      (wp_of_all (fun _ _ => trivial) fun e => ⟨e, rfl⟩)) ?_
    rintro r c₁ (⟨rfl, -⟩ | ⟨rfl, w⟩)
    · rw [if_neg (by decide)]
      exact fun hok => absurd hok (by decide)
    have hfits := (w.fits_iff h4 hshort).mpr htext
    have hinside : c₁.parcel.mDataPos ≤ c₁.parcel.mDataSize := by
      rw [w.pos h4, w.size]
      exact Nat.le_max_right _ _
    rw [if_pos rfl, wp_bind]
    refine wp_imp (writeInplace.fits w.positioned (hdata ▸ hfit) hfits) ?_
    rintro o c' (⟨c₂, ready, a, rfl⟩ | ⟨rfl, hno⟩)
    · have hroom := hfits.room ready
      rw [← hlp] at ready hroom
      rw [← hdata] at a
      rcases ready.claimed w.positioned.toFramed hfit hroom a with
        ⟨hplace, hin, st⟩ | ⟨-, hnil, -⟩
      · have hcopy : (str.copyTo text.length : Prog (Ctx W) Fault _) = pure text := by
          unfold BinderString.copyTo
          rw [if_pos hstr.fits, hstr.bytes]
        rw [hplace]
        unfold endString
        simp only [wp_bind, hcopy, wp_pure]
        rw [wp_storeData_twice hin]
        exact fun _ => w.stored.text w.positioned.toFramed hinside ready hroom st
      · simp at hnil
    · intro hok
      have herror : c'.parcel.mError = STATUS_NO_MEMORY := congrArg Parcel.mError hno.parcel
      exact absurd (herror.symm.trans hok) (by decide)
  · refine wp_imp (writeInt32.refuses f hfull hbig) fun r c₁ hne => ?_
    rw [if_neg hne]
    exact fun hok => absurd hok hne

/-! ## Writes that do not fit -/

/-- A fault of a parcel itself. -/
abbrev NotInCall (e : Fault) : Prop := ¬InCall e

theorem forEach_returns {f : FlatBinderObject → Prog W Fault Unit} {objs : List FlatBinderObject}
    {w : W} (h : ∀ obj w, wp (f obj) (fun _ _ => True) never w) :
    wp (forEach f objs) (fun _ _ => True) never w := by
  induction objs generalizing w with
  | nil => trivial
  | cons obj rest ih =>
    unfold forEach
    rw [wp_bind]
    exact wp_imp (h obj w) fun _ _ _ => ih

/-- Where nothing outside answers, nothing fails there. -/
theorem possess_silent {p : Parcel} {k : Nat} {w : W} :
    wp (possess silent p k) (fun _ _ => True) (fun e => E (.inCall e)) w := by
  have hacquire : ∀ (obj : FlatBinderObject) (w : W),
      wp (acquire_object silent obj) (fun _ _ => True) never w := by
    intro obj w
    unfold acquire_object
    simp only [wp_ite, wp_bind]
    exact ⟨fun _ => ⟨fun _ => trivial, fun _ => trivial⟩, fun _ =>
      ⟨fun _ => ⟨fun _ => trivial, fun _ => trivial⟩, fun _ => trivial⟩⟩
  have hclose : ∀ (obj : FlatBinderObject) (w : W),
      wp (closeFile silent obj) (fun _ _ => True) never w := by
    intro obj w
    unfold closeFile
    rw [wp_ite]
    exact ⟨fun _ => trivial, fun _ => trivial⟩
  have hall : wp (possess silent p k) (fun _ _ => True) never w := by
    unfold possess
    rw [wp_bind]
    refine wp_imp (forEach_returns hacquire) fun _ w _ => ?_
    rw [wp_bind]
    exact wp_imp (forEach_returns hclose) fun _ _ _ => trivial
  exact wp_mono hall (fun _ _ h => h) fun _ h => h.elim

/-- Own data after a growth: the position is where it was, or before it. -/
structure Regrown (c c₁ : Ctx W) (n : Nat) : Prop where
  framed : Framed c₁.parcel
  owner : c₁.parcel.mOwner = none
  error : c₁.parcel.mError = c.parcel.mError
  ample : Ample c₁.heap
  place : c₁.parcel.mDataPos < c.parcel.mDataPos ∨ c₁.parcel.mDataPos = c.parcel.mDataPos ∧
    StartsEmpty c.parcel ∧ c₁.parcel.mDataCapacity = max c.parcel.mDataCapacity n

theorem Regrown.le {n : Nat} (r : Regrown c c₁ n) : c₁.parcel.mDataPos ≤ c.parcel.mDataPos := by
  rcases r.place with h | ⟨h, -⟩
  · exact Nat.le_of_lt h
  · exact Nat.le_of_eq h

theorem continueWrite.regrows {n : Nat} (f : Framed c.parcel) (howner : c.parcel.mOwner = none)
    (ha : Ample c.heap) (h0 : 0 < n) (hn : n ≤ INT32_MAX) (hsize : c.parcel.mDataSize ≤ n) :
    wp (continueWrite x n) (fun r c₁ => r = STATUS_OK ∧ Regrown c c₁ n) E c := by
  by_cases hcap : c.parcel.mDataCapacity < n
  · by_cases hstarts : StartsEmpty c.parcel
    · rw [continueWrite.spec_grow f hstarts howner hn hcap]
      rcases hf : c.heap.fresh c.heap.requests with _ | g
      · exact absurd hf (ha _)
      · have hfitted := grown_fitted f howner g hn (Nat.le_of_lt hcap)
        refine ⟨rfl, hfitted.framed, howner, rfl, ?_, .inr ⟨rfl, hstarts, ?_⟩⟩
        · unfold Ample
          rw [hfitted.fresh]
          exact ha
        · rw [Nat.max_eq_right (Nat.le_of_lt hcap)]
          rfl
    · obtain ⟨hd, hpos⟩ := Classical.not_imp.mp hstarts
      rw [continueWrite.spec_null f howner hn hd]
      rcases hf : c.heap.fresh c.heap.requests with _ | g
      · exact absurd hf (ha _)
      · have f₀ : Framed (restarted c).parcel := ⟨f.size, f.capacity, f.data, f.objects, f.buffer⟩
        have hfitted := grown_fitted (c := restarted c) f₀ howner g hn (Nat.le_of_lt hcap)
        refine ⟨rfl, hfitted.framed, howner, rfl, ?_, .inl (Nat.pos_of_ne_zero hpos)⟩
        unfold Ample
        rw [hfitted.fresh]
        exact ha
  · have hcap := Nat.le_of_not_lt hcap
    cases hd : c.parcel.mData with
    | none =>
      have hzero := (f.empty hd).2.1
      omega
    | some data =>
      have ho : ¬c.parcel.mOwner.isSome = true := by
        rw [howner]
        exact Bool.false_ne_true
      have hkept : kept c.parcel n = c.parcel.mObjectsSize := by
        unfold kept
        rw [if_neg (Nat.not_lt_of_le hsize)]
      unfold continueWrite
      rw [if_neg (Nat.not_lt_of_le hn)]
      simp only [wp_bind, wp_thisParcel]
      rw [countKept.spec f.objects, if_neg ho, hkept]
      simp only [hd, if_neg (Nat.lt_irrefl _)]
      rw [resizeOwn.spec_clip hcap]
      have hclipped : min c.parcel.mDataSize n = c.parcel.mDataSize := Nat.min_eq_left hsize
      refine ⟨rfl, ⟨?_, f.capacity, f.data, f.objects, f.buffer⟩, howner, rfl, ha, ?_⟩
      · exact Nat.le_trans (Nat.min_le_left _ _) f.size
      · show min c.parcel.mDataPos n < _ ∨ min c.parcel.mDataPos n = _ ∧ _ ∧ _
        by_cases hin : c.parcel.mDataPos ≤ n
        · refine .inr ⟨Nat.min_eq_left hin, fun hnull => ?_, (Nat.max_eq_left hcap).symm⟩
          rw [hd] at hnull
          cases hnull
        · exact .inl (by omega)

/-- A growth that is not asked for, or is over the limit. -/
abbrev GrowthRefused (p : Parcel) (n : Nat) : Prop :=
  (p.mDataSize + n) * 3 / 2 ≤ p.mDataSize ∨ INT32_MAX < growthSize p.mDataSize n

/-- Whatever a growth of own data does, the position is not moved on. -/
theorem growData.regrows {n : Nat} (f : Framed c.parcel) (howner : c.parcel.mOwner = none)
    (ha : Ample c.heap) :
    wp (growData x n) (fun r c₁ => r ≠ STATUS_OK ∧ c₁ = c ∧ GrowthRefused c.parcel n ∨
      r = STATUS_OK ∧ Regrown c c₁ (growthSize c.parcel.mDataSize n)) E c := by
  by_cases hrefused : GrowthRefused c.parcel n
  · exact wp_imp (growData.refuses f hrefused) fun _ _ h => .inl ⟨h.1, h.2, hrefused⟩
  · have hgrow := le_growthSize c.parcel.mDataSize n
    obtain ⟨hask, hfit⟩ := not_or.mp hrefused
    rw [growData.continues f (Nat.lt_of_not_le hask) (by omega)]
    refine wp_imp (continueWrite.regrows f howner ha ?_ (Nat.le_of_not_lt hfit) (by omega))
      fun _ _ h => .inr h
    unfold growthSize
    omega

/-- The parcel after a growth that was made for nothing: the position was put back, or there is
still no room at it. -/
structure Missed (c c₁ : Ctx W) (n : Nat) : Prop where
  limit : n ≤ INT32_MAX
  framed : Framed c₁.parcel
  owner : c₁.parcel.mOwner = none
  error : c₁.parcel.mError = c.parcel.mError
  ample : Ample c₁.heap
  short : c₁.parcel.mDataPos < c.parcel.mDataPos ∨
    c₁.parcel.mDataPos = c.parcel.mDataPos ∧ c₁.parcel.mDataCapacity < c.parcel.mDataPos + n

/-- Where nothing fits, a growth is refused, or made for nothing. -/
theorem growData.misses {n : Nat} (f : Positioned c.parcel) (ha : Ample c.heap)
    (h : ¬Fits c.parcel n) :
    wp (growData silent n) (fun r c₁ => r ≠ STATUS_OK ∧ c₁ = c ∧ GrowthRefused c.parcel n ∨
      r = STATUS_OK ∧ Missed c c₁ n) E c := by
  obtain ⟨hfull, hnot⟩ := not_or.mp h
  have hfull := Nat.lt_of_not_le hfull
  by_cases hrefused : GrowthRefused c.parcel n
  · exact wp_imp (growData.refuses f.toFramed hrefused) fun _ _ h => .inl ⟨h.1, h.2, hrefused⟩
  obtain ⟨hask, hfit⟩ := not_or.mp hrefused
  have hask := Nat.lt_of_not_le hask
  have hfit := Nat.le_of_not_lt hfit
  have hgrow := le_growthSize c.parcel.mDataSize n
  have hn : n ≤ INT32_MAX := by omega
  have hshort : StartsEmpty c.parcel → growthSize c.parcel.mDataSize n < c.parcel.mDataPos + n :=
    fun hstarts => Nat.lt_of_not_le fun hreach => hnot ⟨hask, hfit, hreach, hstarts⟩
  by_cases howner : c.parcel.mOwner = none
  · refine wp_imp (growData.regrows f.toFramed howner ha) ?_
    rintro r c₁ (hrefused | ⟨hr, hregrown⟩)
    · exact .inl hrefused
    refine .inr ⟨hr, hn, hregrown.framed, hregrown.owner, hregrown.error, hregrown.ample, ?_⟩
    rcases hregrown.place with hback | ⟨hsame, hstarts, hcap⟩
    · exact .inl hback
    · refine .inr ⟨hsame, ?_⟩
      rw [hcap]
      exact Nat.max_lt.mpr ⟨hfull, hshort hstarts⟩
  · have ho : c.parcel.mOwner.isSome = true := Option.isSome_iff_ne_none.mpr howner
    have hstarts : StartsEmpty c.parcel := by
      intro hnull
      have hbuffer := f.buffer ho
      rw [hnull] at hbuffer
      cases hbuffer
    refine wp_imp (growData.widens f hask hfit hstarts (fun hnone => absurd hnone howner)
      possess_silent) ?_
    rintro r c₁ (⟨-, -, hno⟩ | ⟨hr, hfitted⟩)
    · exact absurd ha hno
    refine .inr ⟨hr, hn, hfitted.framed, hfitted.owner, hfitted.error, ?_, .inr ⟨hfitted.pos, ?_⟩⟩
    · unfold Ample
      rw [hfitted.fresh]
      exact ha
    · rw [hfitted.capacity]
      exact hshort hstarts

/-! ## What is lost -/

theorem loadData.anyhow {pos n : Nat} :
    wp (loadData pos n) (fun _ c' => c' = c) NotInCall c := by
  have hfault : NotInCall .nullPointer ∧ NotInCall .loadOutside := by simp
  unfold wp loadData
  rcases c.parcel.mData with _ | b
  · by_cases h0 : n = 0
    · simp only [h0, if_true]
    · simp only [if_neg h0]
      exact hfault.1
  · by_cases hin : pos + n ≤ b.cells.length
    · simp only [if_pos hin]
    · simp only [if_neg hin]
      exact hfault.2

/-- A store changes only bytes, if it returns. -/
theorem storeData.anyhow {pos : Nat} {xs : List UInt8} :
    wp (storeData pos xs) (fun _ c' => c'.parcel.mDataPos = c.parcel.mDataPos ∧
      c'.parcel.mDataCapacity = c.parcel.mDataCapacity ∧ c'.parcel.mError = c.parcel.mError)
      NotInCall c := by
  have hfault : NotInCall .nullPointer ∧ NotInCall .storeOutside := by simp
  unfold wp storeData
  rcases c.parcel.mData with _ | b
  · by_cases h0 : xs = []
    · simp only [h0, if_true, and_self]
    · simp only [if_neg h0]
      exact hfault.1
  · by_cases hin : pos + xs.length ≤ b.cells.length
    · simp only [if_pos hin]
      exact ⟨rfl, rfl, rfl⟩
    · simp only [if_neg hin]
      exact hfault.2

/-- A store that does not lie inside the buffer does not return. -/
theorem storeData.misses {Q : Unit → Ctx W → Prop} {pos : Nat} {xs : List UInt8}
    (h : c.parcel.cells.length < pos + xs.length) (h0 : xs ≠ []) :
    wp (storeData pos xs) Q NotInCall c := by
  have hfault : NotInCall .nullPointer ∧ NotInCall .storeOutside := by simp
  unfold Parcel.cells at h
  unfold wp storeData
  rcases hd : c.parcel.mData with _ | b
  · simp only [if_neg h0]
    exact hfault.1
  · rw [hd] at h
    have hout : ¬pos + xs.length ≤ b.cells.length := Nat.not_le_of_lt h
    simp only [if_neg hout]
    exact hfault.2

/-- A place is claimed behind the position, whether it is there or not. -/
theorem claimInplace.anyhow {len : Nat} (hpos : c.parcel.mDataPos ≤ INT32_MAX)
    (hpad : padSize len ≤ INT32_MAX) :
    wp (claimInplace len) (fun _ c' => c'.parcel.mDataPos = c.parcel.mDataPos + padSize len ∧
      c'.parcel.mDataCapacity = c.parcel.mDataCapacity ∧ c'.parcel.mError = c.parcel.mError)
      NotInCall c := by
  have hmax : INT32_MAX = 2 ^ 31 - 1 := rfl
  have hsize : SIZE_MAX = 2 ^ 64 - 1 := rfl
  have hsz : sz (c.parcel.mDataPos + padSize len) = c.parcel.mDataPos + padSize len :=
    sz_of_le (by omega)
  have hfinish : ∀ c₁ : Ctx W, c₁.parcel.mDataPos = c.parcel.mDataPos →
      c₁.parcel.mDataCapacity = c.parcel.mDataCapacity → c₁.parcel.mError = c.parcel.mError →
      wp (finishWrite (padSize len)) (fun _ c' =>
        c'.parcel.mDataPos = c.parcel.mDataPos + padSize len ∧
        c'.parcel.mDataCapacity = c.parcel.mDataCapacity ∧ c'.parcel.mError = c.parcel.mError)
        NotInCall c₁ := by
    intro c₁ hpos₁ hcap herror
    unfold finishWrite
    rw [if_neg (Nat.not_lt_of_le hpad), wp_bind, wp_update]
    refine ⟨?_, hcap, herror⟩
    show sz (c₁.parcel.mDataPos + padSize len) = _
    rw [hpos₁, hsz]
  unfold claimInplace
  simp only [wp_bind, wp_thisParcel, wp_ite, wp_pure]
  refine ⟨fun _ => ?_, fun _ => hfinish c rfl rfl rfl⟩
  refine wp_imp loadData.anyhow fun word c₁ h₁ => ?_
  rw [h₁]
  refine wp_imp storeData.anyhow ?_
  rintro _ c₂ ⟨hpos₂, hcap, herror⟩
  exact hfinish c₂ hpos₂ hcap herror

/-- The position did not move over exactly `n` bytes, or not inside the buffer. -/
def Lost (c c' : Ctx W) (n : Nat) : Prop :=
  c'.parcel.mDataPos ≠ c.parcel.mDataPos + n ∨ c'.parcel.mDataCapacity < c'.parcel.mDataPos

theorem Lost.not_stored {bs : List UInt8} (h : Lost c c' bs.length) : ¬Stored c c' bs := by
  intro hstored
  rcases h with hpos | hroom
  · exact hpos hstored.pos
  · exact absurd hstored.room (Nat.not_le_of_lt hroom)

/-- A place that does not fit is not given, or a wrong one is. -/
theorem writeInplace.loses {len : Nat} (f : Positioned c.parcel) (ha : Ample c.heap)
    (hlen : len ≤ INT32_MAX) (h : ¬Fits c.parcel (padSize len)) :
    wp (writeInplace silent len) (fun o c' => o = none ∧ c' = c ∧ Lost c c (padSize len) ∨
      c'.parcel.mError = c.parcel.mError ∧ Lost c c' (padSize len)) NotInCall c := by
  have hfull := Nat.lt_of_not_le (not_or.mp h).1
  have hpad := padSize_of_le hlen
  have hreach := f.reach
  have hsz := f.sz_pos (n := padSize len) (by unfold INT32_MAX at hlen; omega)
  have hnone : Lost c c (padSize len) := by
    by_cases h0 : padSize len = 0
    · exact .inr (by omega)
    · exact .inl (by omega)
  unfold writeInplace
  rw [if_neg (Nat.not_lt_of_le hlen)]
  simp only [wp_bind, wp_thisParcel, hsz]
  rw [if_neg (by omega), if_neg (Nat.not_le_of_lt hfull), wp_bind]
  refine wp_imp (growData.misses f ha h) ?_
  rintro r c₁ (⟨hr, rfl, -⟩ | ⟨rfl, m⟩)
  · rw [if_neg hr]
    exact .inl ⟨rfl, rfl, hnone⟩
  · have hpos₁ : c₁.parcel.mDataPos ≤ INT32_MAX := by
      rcases m.short with hback | ⟨hsame, -⟩ <;> omega
    rw [if_pos rfl]
    refine wp_imp (claimInplace.anyhow hpos₁ m.limit) ?_
    rintro o c' ⟨hpos', hcap, herror⟩
    refine .inr ⟨herror.trans m.error, ?_⟩
    rcases m.short with hback | ⟨hsame, hshort⟩
    · exact .inl (by omega)
    · exact .inr (by omega)

/-- A blob that does not fit is lost without a word. -/
theorem write.loses {data : List UInt8} (f : Positioned c.parcel) (ha : Ample c.heap)
    (he : c.parcel.mError = STATUS_OK) (h : ¬BlobFits c.parcel data.length) :
    wp (write silent data) (fun r c' => r = STATUS_OK ∧ ¬Stored c c' (padded data)) NotInCall c := by
  obtain ⟨hlong, hnot⟩ := not_or.mp h
  have hlen := Nat.le_of_not_lt hlong
  have hlp : (padded data).length = padSize data.length := length_padded hlen
  unfold write
  rw [if_neg hlong, wp_bind]
  refine wp_imp (writeInplace.loses f ha hlen hnot) ?_
  rintro o c' (⟨rfl, rfl, hlost⟩ | ⟨herror, hlost⟩)
  · rw [← hlp] at hlost
    exact ⟨he, hlost.not_stored⟩
  · rw [← hlp] at hlost
    cases o with
    | none => exact ⟨herror.trans he, hlost.not_stored⟩
    | some d =>
      rw [wp_bind]
      refine wp_imp storeData.anyhow ?_
      rintro _ c'' ⟨hpos, hcap, -⟩
      refine ⟨rfl, Lost.not_stored ?_⟩
      unfold Lost at hlost ⊢
      rwa [hpos, hcap]

/-- In own data the position moves on by what was claimed at most. -/
theorem writeInplace.atMost {len : Nat} (f : Framed c.parcel) (howner : c.parcel.mOwner = none)
    (hpos : c.parcel.mDataPos ≤ INT32_MAX) (ha : Ample c.heap) (hpad : padSize len ≤ INT32_MAX) :
    wp (writeInplace x len) (fun _ c' =>
      c'.parcel.mDataPos ≤ c.parcel.mDataPos + padSize len ∧
      c'.parcel.mError = c.parcel.mError) NotInCall c := by
  have hclaim : ∀ c₁ : Ctx W, c₁.parcel.mDataPos ≤ c.parcel.mDataPos →
      c₁.parcel.mError = c.parcel.mError → wp (claimInplace len) (fun _ c' =>
        c'.parcel.mDataPos ≤ c.parcel.mDataPos + padSize len ∧
        c'.parcel.mError = c.parcel.mError) NotInCall c₁ := by
    intro c₁ hle herror₁
    refine wp_imp (claimInplace.anyhow (Nat.le_trans hle hpos) hpad) ?_
    rintro o c' ⟨hpos', -, herror⟩
    exact ⟨by omega, herror.trans herror₁⟩
  have hstays : c.parcel.mDataPos ≤ c.parcel.mDataPos + padSize len := Nat.le_add_right _ _
  unfold writeInplace
  simp only [wp_bind, wp_thisParcel, wp_ite, wp_pure]
  refine ⟨fun _ => ⟨hstays, trivial⟩, fun _ => ⟨fun _ => ⟨hstays, trivial⟩, fun _ =>
    ⟨fun _ => hclaim c (Nat.le_refl _) rfl, fun _ => ?_⟩⟩⟩
  refine wp_imp (growData.regrows f howner ha) ?_
  rintro r c₁ (⟨hr, rfl, -⟩ | ⟨rfl, hregrown⟩)
  · exact ⟨fun hok => absurd hok hr, fun _ => ⟨hstays, rfl⟩⟩
  · exact ⟨fun _ => hclaim c₁ hregrown.le hregrown.error, fun hne => absurd rfl hne⟩

/-- Where the parcel has no error, OK is returned, and the position stays. -/
theorem endString.anyhow {str : BinderString} {text : List UInt8} (hstr : str.Carries text)
    {place : Option Nat} (he : c.parcel.mError = STATUS_OK) :
    wp (endString str text.length place) (fun r c' => r = STATUS_OK ∧
      c'.parcel.mDataPos = c.parcel.mDataPos ∧
      c'.parcel.mDataCapacity = c.parcel.mDataCapacity) NotInCall c := by
  cases place with
  | none => exact ⟨he, rfl, rfl⟩
  | some data =>
    have hcopy : (str.copyTo text.length : Prog (Ctx W) Fault _) = pure text := by
      unfold BinderString.copyTo
      rw [if_pos hstr.fits, hstr.bytes]
    unfold endString
    simp only [wp_bind, hcopy, wp_pure]
    refine wp_imp storeData.anyhow ?_
    rintro _ c₁ ⟨hpos₁, hcap₁, -⟩
    refine wp_imp storeData.anyhow ?_
    rintro _ c₂ ⟨hpos₂, hcap₂, -⟩
    exact ⟨trivial, hpos₂.trans hpos₁, hcap₂.trans hcap₁⟩

/-- Behind a length word that fits, a text that does not fit is lost. -/
theorem WordStored.loses {str : BinderString} {text : List UInt8} (hstr : str.Carries text)
    (w : WordStored c c₁ (wordBytes 4 (BitVec.ofNat 32 text.length))) (ha : Ample c.heap)
    (he : c.parcel.mError = STATUS_OK) (h : ¬FitsBehindWord c.parcel text.length) :
    wp (do
      let place ← writeInplace silent (text.length + 1)
      endString str text.length place) (fun r c' => r = STATUS_OK ∧
        ¬Stored c c' (encodedString text)) NotInCall c₁ := by
  have h4 := length_wordBytes 4 (BitVec.ofNat 32 text.length)
  have hshort : text.length ≤ 64 := hstr.fits
  have hpos₁ := w.pos h4
  have ha₁ : Ample c₁.heap := by
    unfold Ample
    rw [w.fresh]
    exact ha
  have hlost : ∀ c' : Ctx W, Lost c₁ c' (padSize (text.length + 1)) →
      ¬Stored c c' (encodedString text) := by
    intro c' hlost
    refine Lost.not_stored ?_
    rw [length_encodedString hshort]
    unfold Lost at hlost ⊢
    rwa [hpos₁, Nat.add_assoc] at hlost
  have hmax : text.length + 1 ≤ INT32_MAX := by
    unfold INT32_MAX
    omega
  rw [wp_bind]
  refine wp_imp (writeInplace.loses w.positioned ha₁ hmax
    fun hfits => h ((w.fits_iff h4 hshort).mp hfits)) ?_
  intro o c₂ houtcome
  have hlost₂ : c₂.parcel.mError = STATUS_OK ∧ Lost c₁ c₂ (padSize (text.length + 1)) := by
    rcases houtcome with ⟨-, rfl, hnone⟩ | ⟨herror, hwrong⟩
    · exact ⟨w.error.trans he, hnone⟩
    · exact ⟨(herror.trans w.error).trans he, hwrong⟩
  refine wp_imp (endString.anyhow hstr hlost₂.1) ?_
  rintro r c' ⟨hr, hpos, hcap⟩
  refine ⟨hr, hlost c' ?_⟩
  have hwrong := hlost₂.2
  unfold Lost at hwrong ⊢
  rwa [hpos, hcap]

/-- A string that does not fit is lost without a word, or a part of it. -/
theorem writeString16.loses {str : BinderString} {text : List UInt8} (hstr : str.Carries text)
    (f : Positioned c.parcel) (ha : Ample c.heap) (he : c.parcel.mError = STATUS_OK)
    (h : ¬StringFits c.parcel text.length) :
    wp (writeString16 silent (some str)) (fun r c' => r = STATUS_OK ∧
      ¬Stored c c' (encodedString text)) NotInCall c := by
  have h4 := length_wordBytes 4 (BitVec.ofNat 32 text.length)
  have hshort : text.length ≤ 64 := hstr.fits
  obtain ⟨-, -, hpad⟩ := padSize_text hshort
  rw [writeString16_eq hstr, wp_bind]
  by_cases hword : Fits c.parcel 4
  · refine wp_imp (writeInt32.fits f hword possess_silent) ?_
    rintro r c₁ (⟨-, hno⟩ | ⟨rfl, w⟩)
    · exact absurd ha hno
    · rw [if_pos rfl]
      exact w.loses hstr ha he fun htext => h (.inl ⟨hword, htext⟩)
  · -- the growth for the length word is made for nothing
    have hfull := Nat.lt_of_not_le (not_or.mp hword).1
    have hsz := f.sz_pos (n := 4) (by decide)
    have hreach := f.reach
    unfold writeInt32 writeAligned
    simp only [wp_bind, wp_thisParcel, h4, hsz]
    rw [if_neg (Nat.not_le_of_lt hfull), wp_bind]
    refine wp_imp (growData.misses f ha hword) ?_
    rintro r c₁ (⟨-, -, hrefused⟩ | ⟨rfl, m⟩)
    · refine absurd (.inr ⟨hfull, hrefused.resolve_left ?_⟩) h
      omega
    rw [if_pos rfl]
    by_cases hroom : c₁.parcel.mDataPos + 4 ≤ c₁.parcel.mDataCapacity
    · have hback : c₁.parcel.mDataPos < c.parcel.mDataPos := by
        rcases m.short with hback | ⟨hsame, hshort⟩
        · exact hback
        · omega
      have hcap := m.framed.capacity
      refine storeAligned.stores m.framed (h4 ▸ hroom) fun c₂ st => ?_
      have hpos₂ : c₂.parcel.mDataPos = c₁.parcel.mDataPos + 4 := h4 ▸ st.pos
      have ha₂ : Ample c₂.heap := st.heap ▸ m.ample
      have herror₂ : c₂.parcel.mError = STATUS_OK := (st.error.trans m.error).trans he
      rw [if_pos rfl, wp_bind]
      refine wp_imp (writeInplace.atMost (st.framed m.framed (h4 ▸ hroom))
        (st.owner.trans m.owner) (by omega) ha₂ (by rw [hpad]; unfold INT32_MAX; omega)) ?_
      rintro o c₃ ⟨hmost, herror₃⟩
      refine wp_imp (endString.anyhow hstr (herror₃.trans herror₂)) ?_
      rintro r c' ⟨hr, hpos, hcap⟩
      refine ⟨hr, Lost.not_stored (.inl ?_)⟩
      rw [length_encodedString hshort, hpos]
      omega
    · unfold storeAligned
      rw [wp_bind, wp_thisParcel, wp_bind]
      refine storeData.misses ?_ fun hnil => ?_
      · rw [m.framed.data, h4]
        exact Nat.lt_of_not_le hroom
      · rw [hnil] at h4
        cases h4

/-- For every parcel whose error is OK, wherever its position is, and every blob and every string:
a write stays inside the buffer, and returns OK only where the whole padded encoding was stored
and the position moved over it, exactly where the encoding fits. -/
theorem a_write_that_returns_ok_has_stored (c : Ctx W) (f : Positioned c.parcel)
    (he : c.parcel.mError = STATUS_OK) :
    (∀ data, Reports (fun x => write x data) c (padded data) ↔ BlobFits c.parcel data.length) ∧
    ∀ str text, BinderString.Holds str text →
      (Reports (fun x => writeString16 x (some str)) c (encodedString text) ↔
        StringFits c.parcel text.length) := by
  have hample : Ample plenty := fun _ hnone => by cases hnone
  refine ⟨fun data => ⟨fun h => ?_, fun hfits x heap => ?_⟩,
    fun str text hstr => ⟨fun h => ?_, fun hfits x heap => ?_⟩⟩
  · by_contra hnot
    refine wp_absurd (h silent plenty)
      (write.loses (c := { c with heap := plenty }) f hample he hnot) ?_ fun _ hin hout => hout hin
    exact fun r c' hstored hlost => hlost.2 (hstored hlost.1)
  · exact write.reports (c := { c with heap := heap }) f hfits
  · by_contra hnot
    refine wp_absurd (h silent plenty)
      (writeString16.loses (c := { c with heap := plenty }) hstr.carries f hample he hnot) ?_
      fun _ hin hout => hout hin
    exact fun r c' hstored hlost => hlost.2 (hstored hlost.1)
  · exact writeString16.reports (c := { c with heap := heap }) hstr.carries f hfits

instance (p : Parcel) (n : Nat) : Decidable (Reaches p n) :=
  inferInstanceAs (Decidable (_ ∧ _ ∧ (p.mData = none → p.mDataPos = 0)))

instance (p : Parcel) (n : Nat) : Decidable (Fits p n) := inferInstanceAs (Decidable (_ ∨ _))

instance (p : Parcel) (len : Nat) : Decidable (BlobFits p len) :=
  inferInstanceAs (Decidable (_ ∨ _))

instance (p : Parcel) (len : Nat) : Decidable (FitsBehindWord p len) :=
  inferInstanceAs (Decidable (_ ∨ _))

instance (p : Parcel) (len : Nat) : Decidable (StringFits p len) :=
  inferInstanceAs (Decidable (_ ∨ _))

/-- A fresh parcel that holds a word, with the position at 20. -/
def pushedOn : Parcel :=
  { empty with
    mData := some ⟨0, List.replicate 12 0⟩
    mDataSize := 4
    mDataCapacity := 12
    mDataPos := 20 }

theorem a_small_blob_is_stored :
    Reports (fun x => write x [1, 2, 3]) (⟨pushedOn, plenty, ()⟩ : Ctx Unit) (padded [1, 2, 3]) ∧
    Reports (fun x => writeString16 x (some hi)) (⟨pushedOn, plenty, ()⟩ : Ctx Unit)
      (encodedString [104, 105]) := by
  have f : Positioned pushedOn :=
    ⟨⟨by decide, by decide, by decide, by decide, by decide⟩, by decide, fun h => by cases h⟩
  have h := a_write_that_returns_ok_has_stored (⟨pushedOn, plenty, ()⟩ : Ctx Unit) f rfl
  exact ⟨(h.1 _).mpr (by decide), (h.2 _ _ hi_holds).mpr (by decide)⟩

/-- A blob whose growth is refused is refused without a word. -/
theorem write.refused {data : List UInt8} (f : Positioned c.parcel) (hlen : data.length ≤ INT32_MAX)
    (hfull : c.parcel.mDataCapacity < c.parcel.mDataPos + padSize data.length)
    (h : GrowthRefused c.parcel (padSize data.length)) :
    wp (write x data) (fun r c' => r = c.parcel.mError ∧ c' = c) E c := by
  have hpad := padSize_of_le hlen
  have hsz := f.sz_pos (n := padSize data.length) (by unfold INT32_MAX at hlen; omega)
  unfold write writeInplace
  rw [if_neg (Nat.not_lt_of_le hlen), if_neg (Nat.not_lt_of_le hlen)]
  simp only [wp_bind, wp_thisParcel, hsz]
  rw [if_neg (by omega), if_neg (Nat.not_le_of_lt hfull), wp_bind]
  refine wp_imp (growData.refuses f.toFramed h) ?_
  rintro r c' ⟨hne, rfl⟩
  rw [if_neg hne]
  exact ⟨rfl, rfl⟩

/-- A blob of 1431655768 bytes for a fresh parcel. -/
@[irreducible] def vast : List UInt8 := List.replicate 1431655768 0

theorem a_vast_blob_is_lost : ∃ c' : Ctx Unit,
    write silent vast ⟨empty, plenty, ()⟩ = .ok (STATUS_OK, c') ∧
    ¬Stored ⟨empty, plenty, ()⟩ c' (padded vast) := by
  have hlen : vast.length = 1431655768 := by
    unfold vast
    exact List.length_replicate
  have hfit : vast.length ≤ INT32_MAX := by
    rw [hlen]
    decide
  have hpad : padSize vast.length = 1431655768 := by
    rw [hlen]
    decide
  have hfull : (empty : Parcel).mDataCapacity < empty.mDataPos + padSize vast.length := by
    rw [hpad]
    decide
  have hbig : GrowthRefused empty (padSize vast.length) := by
    rw [hpad]
    decide
  obtain ⟨r, c', hrun, hr, hc⟩ : ∃ (r : Int) (c' : Ctx Unit),
      write silent vast ⟨empty, plenty, ()⟩ = .ok (r, c') ∧ r = STATUS_OK ∧
        c' = ⟨empty, plenty, ()⟩ :=
    wp_never_iff.mp (write.refused (Usable.positioned (.inl empty_local)) hfit hfull hbig)
  subst hr hc
  refine ⟨_, hrun, fun h => ?_⟩
  have hpos := h.pos
  rw [length_padded hfit, hpad] at hpos
  exact absurd hpos (by decide)

-- On an empty parcel a growth puts the position back: OK is returned, and 1000 is now 4.
example : (write silent [1, 2, 3, 4] ⟨{ empty with mDataPos := 1000 }, plenty, ()⟩).map
    (fun r => (r.1, r.2.parcel.mDataPos)) = .ok (STATUS_OK, 4) := by decide +kernel

end system_binder.Parcel
