-- A parcel from a peer: which bytes drive a reader out of its way, and that all
-- others are read or refused.
import SystemBinder.ParcelSpace
import SystemBinder.Status

open prog memory

namespace system_binder.Parcel

variable {W α : Type} {x : Calls W} {c : Ctx W} {p : Parcel} {E : Fault → Prop}

/-! ## What stands at the position -/

/-- The parcel with the position `n` bytes further. -/
def ahead (n : Nat) (p : Parcel) : Parcel := { p with mDataPos := p.mDataPos + n }

/-- The word at the position. -/
def wordHere (p : Parcel) : BitVec 32 := bytesWord 32 (window p.cells p.mDataPos 4)

/-- How many bytes lie ahead. -/
def avail (p : Parcel) : Nat := p.mDataSize - p.mDataPos

/-- The block at the position that starts with its own size: the size, or the error. -/
def blockHere (p : Parcel) : Int × Nat :=
  if p.mDataPos + 4 ≤ p.mDataSize then
    if (wordHere p).toInt < 0 ∨ avail p < (wordHere p).toNat then (STATUS_UNKNOWN_ERROR, 0)
    else (STATUS_OK, (wordHere p).toNat)
  else (STATUS_NOT_ENOUGH_DATA, 0)

theorem Readable.skip_eq (r : Readable p) {n : Nat} (hn : n ≤ 2 ^ 32) : Parcel.skip n p = Parcel.ahead n p := by
  unfold Parcel.skip Parcel.ahead
  rw [r.sz_pos hn]

theorem Readable.ahead (r : Readable p) {n : Nat} (h : p.mDataPos + n ≤ p.mDataSize) :
    Readable (Parcel.ahead n p) := ⟨h, r.data, r.fits⟩

theorem blockHere_inside (r : Readable p) {n : Nat} (h : blockHere p = (STATUS_OK, n)) :
    p.mDataPos + n ≤ p.mDataSize := by
  have hpos := r.pos
  unfold blockHere avail at h
  split at h
  · split at h
    · cases h
    · rename_i hn
      cases h
      omega
  · cases h

theorem blockHere_whole {n : Nat} (h : blockHere p = (STATUS_OK, n)) :
    p.mDataPos + 4 ≤ p.mDataSize := by
  unfold blockHere at h
  split at h
  · assumption
  · cases h

/-! ## The conditions -/

/-- A whole string at the position has its NUL. -/
def Ended (p : Parcel) : Prop := StringInside p → Terminated p

/-- Behind the header of a request, where there is one, a whole string has its NUL. -/
def HeaderEnded (p : Parcel) : Prop :=
  p.mDataPos + 12 ≤ p.mDataSize → wordHere (ahead 8 p) = kHeader → Ended (ahead 12 p)

/-- To skip the block at the position, no number beyond `INT32_MAX` is met. A block of no bytes
is skipped only where `always` says so. -/
def Skippable (always : Bool) (p : Parcel) : Prop :=
  avail p ≤ INT32_MAX ∧
    ∀ n, blockHere p = (STATUS_OK, n) → (n ≠ 0 ∨ always = true) → p.mDataPos + n ≤ INT32_MAX

/-- Past the stack trace at the position, which has `n` bytes. -/
def afterTrace (n : Nat) (p : Parcel) : Parcel := ahead (if n ≠ 0 then n else 4) p

/-- What follows an exception code `e` has a message with its NUL and of at most 64 bytes, and
blocks that can be skipped. -/
def ExceptionEnded (e : BitVec 32) (p : Parcel) : Prop :=
  StringInside p → Terminated p ∧
    (textAt p.cells (p.mDataPos + 4)).length ≤ STRING_INIT_CAPACITY ∧
    let q := ahead (4 + padSize ((stringLength p).toNat + 1)) p
    Skippable false q ∧
      ∀ n, blockHere q = (STATUS_OK, n) → e = EX_PARCELABLE → Skippable true (afterTrace n q)

/-- A Status at the position, read as far as it goes. -/
def StatusEnded (p : Parcel) : Prop :=
  p.mDataPos + 4 ≤ p.mDataSize →
    (wordHere p = EX_HAS_REPLY_HEADER → Skippable true (ahead 4 p)) ∧
    (wordHere p ≠ EX_HAS_REPLY_HEADER → wordHere p ≠ EX_NONE →
      ExceptionEnded (wordHere p) (ahead 4 p))

/-! ## Blocks -/

theorem dataAvail.spec {Q : Nat → Ctx W → Prop} (r : Readable c.parcel) :
    wp dataAvail Q E c ↔
      if INT32_MAX < avail c.parcel then E (.logFatal "result too big")
      else Q (avail c.parcel) c := by
  have hmax : max c.parcel.mDataSize c.parcel.mDataPos = c.parcel.mDataSize :=
    Nat.max_eq_left r.pos
  unfold dataAvail dataSize dataPosition avail
  simp only [wp_bind, wp_thisParcel, wp_pure, hmax]
  split <;> exact Iff.rfl

theorem setDataPosition.spec_all {Q : Unit → Ctx W → Prop} {pos : Nat} :
    wp (setDataPosition pos) Q E c ↔
      if INT32_MAX < pos then E (.logFatal "pos too big")
      else Q () (c.mapParcel fun p => { p with
        mDataPos := pos, mNextObjectHint := 0, mObjectsSorted := false }) := by
  unfold setDataPosition
  split <;> exact Iff.rfl

/-- After the size of a block was read, if there was one. -/
def afterSize (c : Ctx W) : Ctx W :=
  if c.parcel.mDataPos + 4 ≤ c.parcel.mDataSize
  then (c.mapHeap Heap.nextLocal).mapParcel (skip 4) else c.mapHeap Heap.nextLocal

theorem blockSize.spec {Q : Int × Nat → Ctx W → Prop} (r : Readable c.parcel) :
    wp Status.blockSize Q E c ↔
      if INT32_MAX < avail c.parcel then E (.logFatal "result too big")
      else Q (blockHere c.parcel) (afterSize c) := by
  unfold Status.blockSize
  rw [wp_bind, dataAvail.spec r]
  split
  · exact Iff.rfl
  · simp only [wp_bind, wp_indeterminate]
    rw [readInt32.spec (c := c.mapHeap Heap.nextLocal) r]
    unfold blockHere wordHere afterSize
    simp only [Ctx.parcel_mapHeap]
    by_cases h4 : c.parcel.mDataPos + 4 ≤ c.parcel.mDataSize
    · simp only [if_pos h4, ne_eq, not_true_eq_false, if_false]
      by_cases hbad : (bytesWord 32 (window c.parcel.cells c.parcel.mDataPos 4)).toInt < 0 ∨
          avail c.parcel < (bytesWord 32 (window c.parcel.cells c.parcel.mDataPos 4)).toNat
      · simp only [hbad, if_true, wp_pure]
      · simp only [hbad, if_false, wp_pure]
    · have hne : STATUS_NOT_ENOUGH_DATA ≠ STATUS_OK := by decide
      simp only [if_neg h4, wp_ite, wp_pure, hne, forall_const, ne_eq, not_false_eq_true,
        not_true_eq_false, false_implies, and_true]

/-- The size was read, or there was none. -/
theorem moved_afterSize (r : Readable c.parcel) : Moved c.parcel (afterSize c).parcel := by
  unfold afterSize
  split
  · exact r.moved_skip (n := 4) (by decide) ‹_›
  · exact Moved.refl r.pos

theorem afterSize_whole (r : Readable c.parcel) {n : Nat} (h : blockHere c.parcel = (STATUS_OK, n)) :
    (afterSize c).parcel = ahead 4 c.parcel := by
  unfold afterSize
  rw [if_pos (blockHere_whole h)]
  exact r.skip_eq (by decide)

/-! ## What a Status read needs -/

/-- A read that only moves from `p` on. -/
abbrev MovedFrom (p : Parcel) : α → Ctx W → Prop := fun _ c' => Moved p c'.parcel

theorem Moved.to {p₀ : Parcel} {n : Nat} (m : Moved p₀ c.parcel) (h : n ≤ c.parcel.mDataSize) :
    Moved p₀ (c.mapParcel fun p => { p with
      mDataPos := n, mNextObjectHint := 0, mObjectsSorted := false }).parcel :=
  m.trans ⟨rfl, rfl, rfl, rfl, rfl, rfl, rfl, h⟩

/-- A block is skipped exactly when no number beyond `INT32_MAX` is met, and then what comes
`next` decides, from the place past the block. -/
theorem skipBlock.spec {p₀ : Parcel} {always : Bool} {st : Status}
    {next : Prog (Ctx W) Fault (Int × Status)} {K : Nat → Prop}
    (m : Moved p₀ c.parcel) (r : Readable c.parcel)
    (hnext : ∀ n c', blockHere c.parcel = (STATUS_OK, n) → Moved p₀ c'.parcel →
      c'.parcel.mDataPos = c.parcel.mDataPos + (if n ≠ 0 ∨ always = true then n else 4) →
      (wp next (MovedFrom p₀) never c' ↔ K n)) :
    wp (Status.skipBlock always st next) (MovedFrom p₀) never c ↔
      Skippable always c.parcel ∧ ∀ n, blockHere c.parcel = (STATUS_OK, n) → K n := by
  unfold Status.skipBlock dataPosition
  simp only [wp_bind, wp_thisParcel, wp_pure]
  rw [blockSize.spec r]
  unfold Skippable
  by_cases hbig : INT32_MAX < avail c.parcel
  · rw [if_pos hbig]
    exact ⟨fun h => h.elim, fun h => absurd h.1.1 (by omega)⟩
  rw [if_neg hbig]
  have hm := m.trans (moved_afterSize r)
  rcases hb : blockHere c.parcel with ⟨status, n⟩
  by_cases hs : status = STATUS_OK
  · subst hs
    have hin := blockHere_inside r hb
    have hwhole := afterSize_whole r hb
    have hK : ∀ c', Moved p₀ c'.parcel →
        c'.parcel.mDataPos = c.parcel.mDataPos + (if n ≠ 0 ∨ always = true then n else 4) →
        (wp next (MovedFrom p₀) never c' ↔ K n) := fun c' => hnext n c' hb
    simp only [ne_eq, not_true_eq_false, if_false, wp_bind, Status.moveOver]
    by_cases hmove : n ≠ 0 ∨ always = true
    · rw [if_pos hmove, setDataPosition.spec_all]
      by_cases hfar : INT32_MAX < c.parcel.mDataPos + n
      · rw [if_pos hfar]
        refine ⟨fun h => h.elim, fun h => absurd (h.1.2 n rfl hmove) (by omega)⟩
      · rw [if_neg hfar]
        have hto : Moved p₀ _ := hm.to (n := c.parcel.mDataPos + n) (by
          rw [(moved_afterSize r).size]
          exact hin)
        rw [hK _ hto (by rw [if_pos hmove]; rfl)]
        refine ⟨fun h => ⟨⟨by omega, ?_⟩, ?_⟩, fun h => h.2 n rfl⟩
        · rintro k hk -
          cases hk
          omega
        · rintro k hk
          cases hk
          exact h
    · rw [if_neg hmove, wp_pure, hK _ hm (by rw [if_neg hmove, hwhole]; rfl)]
      refine ⟨fun h => ⟨⟨by omega, ?_⟩, ?_⟩, fun h => h.2 n rfl⟩
      · rintro k hk hk'
        cases hk
        exact absurd hk' hmove
      · rintro k hk
        cases hk
        exact h
  · simp only [ne_eq, hs, not_false_eq_true, if_true, Status.failWith, wp_pure, Prod.mk.injEq,
      false_and, false_implies, implies_true, and_true]
    exact ⟨fun _ => by omega, fun _ => hm⟩

theorem Skippable.congr {p' : Parcel} {always : Bool} (hc : p'.cells = p.cells)
    (hs : p'.mDataSize = p.mDataSize) (hp : p'.mDataPos = p.mDataPos) :
    Skippable always p' ↔ Skippable always p := by
  unfold Skippable blockHere avail wordHere
  rw [hc, hs, hp]

theorem readDetails.spec {p₀ : Parcel} {st : Status} (m : Moved p₀ c.parcel)
    (r : Readable c.parcel) :
    wp (Status.readDetails st) (MovedFrom p₀) never c ↔
      (st.mException = EX_PARCELABLE → Skippable true c.parcel) := by
  unfold Status.readDetails
  rw [wp_ite, wp_ite, wp_pure]
  by_cases hspec : st.mException = EX_SERVICE_SPECIFIC
  · have hne : st.mException ≠ EX_PARCELABLE := by
      rw [hspec]
      decide
    refine ⟨fun _ h => absurd h hne, fun _ => ⟨fun _ => ?_, fun h => absurd hspec h⟩⟩
    rw [wp_bind]
    refine wp_imp (readInt32.moves st.mErrorCode c r) ?_
    rintro ⟨status, code⟩ c' h
    rw [wp_ite]
    exact ⟨fun _ => m.trans h, fun _ => m.trans h⟩
  · rw [skipBlock.spec (K := fun _ => True) m r fun n c' _ h _ =>
      ⟨fun _ => trivial, fun _ => (wp_pure _).mpr h⟩]
    constructor
    · exact fun h hp => ((h.2 hspec).1 hp).1
    · exact fun h => ⟨fun hs => absurd hs hspec,
        fun _ => ⟨fun hp => ⟨h hp, fun _ _ => trivial⟩, fun _ => m⟩⟩

theorem StringInside.skip_eq (r : Readable p) (h : StringInside p) :
    Parcel.skip (padSize ((stringLength p).toNat + 1)) (Parcel.skip 4 p) =
      Parcel.ahead (4 + padSize ((stringLength p).toNat + 1)) p := by
  rw [(r.skip (n := 4) (by decide) h.1).skip_eq h.padded, r.skip_eq (by decide)]
  unfold Parcel.ahead
  rw [Nat.add_assoc]

/-- The stack trace and what follows it. -/
theorem afterMessage.spec {p₀ : Parcel} {st : Status} (m : Moved p₀ c.parcel)
    (r : Readable c.parcel) :
    wp (Status.skipBlock false st (Status.readDetails st)) (MovedFrom p₀) never c ↔
      Skippable false c.parcel ∧ ∀ n, blockHere c.parcel = (STATUS_OK, n) →
        st.mException = EX_PARCELABLE → Skippable true (afterTrace n c.parcel) := by
  refine skipBlock.spec m r fun n c' _ hm' hp' => ?_
  have hcells : c'.parcel.cells = c.parcel.cells := hm'.cells.trans m.cells.symm
  have hsize : c'.parcel.mDataSize = c.parcel.mDataSize := hm'.size.trans m.size.symm
  have hread : Readable c'.parcel := by
    refine ⟨hm'.pos, ?_, ?_⟩
    · rw [hsize, hcells]
      exact r.data
    · rw [hcells]
      exact r.fits
  rw [readDetails.spec hm' hread]
  have hskip : Skippable true c'.parcel ↔ Skippable true (afterTrace n c.parcel) := by
    refine Skippable.congr hcells hsize ?_
    rw [hp']
    by_cases hn : n ≠ 0
    · rw [if_pos (.inl hn), afterTrace, if_pos hn]
      rfl
    · rw [if_neg (by simp [not_not.mp hn]), afterTrace, if_neg hn]
      rfl
  rw [hskip]

/-- A fresh `String` holds something. -/
theorem indeterminateString.spec (c : Ctx W) : ∃ s f, ∀ Q : BinderString → Ctx W → Prop,
    wp Status.indeterminateString Q E c ↔ Q s (c.mapHeap f) := ⟨_, _, fun _ => Iff.rfl⟩

theorem readException.spec {p₀ : Parcel} {st : Status} (m : Moved p₀ c.parcel)
    (r : Readable c.parcel) :
    wp (Status.readException st) (MovedFrom p₀) never c ↔
      ExceptionEnded st.mException c.parcel := by
  obtain ⟨s, f, hs⟩ := indeterminateString.spec (E := never) c
  have hne : STATUS_BAD_VALUE ≠ STATUS_OK := by decide
  unfold Status.readException ExceptionEnded
  rw [wp_bind, hs, wp_bind, readString16_to.spec (c := c.mapHeap f) r]
  by_cases hin : StringInside c.parcel
  swap
  · rw [if_neg (show ¬StringInside (c.mapHeap f).parcel from hin)]
    simp only [hne, ne_eq, not_false_eq_true, if_true]
    exact ⟨fun _ h => absurd h hin, fun _ => m.trans r.moved_short⟩
  rw [if_pos (show StringInside (c.mapHeap f).parcel from hin)]
  by_cases hend : Terminated c.parcel
  swap
  · rw [if_neg (show ¬Terminated (c.mapHeap f).parcel from hend)]
    exact ⟨fun h => h.elim, fun h => hend (h hin).1⟩
  rw [if_pos (show Terminated (c.mapHeap f).parcel from hend)]
  simp only [ne_eq, not_true_eq_false, if_false, wp_bind]
  by_cases hfit : (textAt c.parcel.cells (c.parcel.mDataPos + 4)).length ≤ STRING_INIT_CAPACITY
  swap
  · rw [BinderString.dup.spec_long hfit]
    exact ⟨fun h => h.elim, fun h => hfit (h hin).2.1⟩
  rw [BinderString.dup.spec hfit]
  refine Iff.trans (afterMessage.spec (m.trans (hin.moved r)) (hin.skip r)) ?_
  simp only [Ctx.parcel_mapParcel, Ctx.parcel_mapHeap, hin.skip_eq r]
  exact ⟨fun h _ => ⟨hend, hfit, h⟩, fun h => (h hin).2.2⟩

/-- A Status read ends well exactly when what it reads lets it. -/
theorem readFromParcel.spec {st : Status} (r : Readable c.parcel) :
    wp (Status.readFromParcel st) (MovedFrom c.parcel) never c ↔ StatusEnded c.parcel := by
  have hne : STATUS_NOT_ENOUGH_DATA ≠ STATUS_OK := by decide
  have hstay : Moved c.parcel c.parcel := Moved.refl r.pos
  unfold Status.readFromParcel StatusEnded
  rw [wp_bind, readInt32.spec r]
  by_cases h4 : c.parcel.mDataPos + 4 ≤ c.parcel.mDataSize
  swap
  · rw [if_neg h4]
    simp only [hne, ne_eq, not_false_eq_true, if_true]
    exact ⟨fun _ h => absurd h h4, fun _ => hstay⟩
  rw [if_pos h4]
  have hm : Moved c.parcel (c.mapParcel (Parcel.skip 4)).parcel := r.moved_skip (by decide) h4
  have hr := hm.readable r
  have heq : (c.mapParcel (Parcel.skip 4)).parcel = ahead 4 c.parcel := r.skip_eq (by decide)
  simp only [ne_eq, not_true_eq_false, if_false, wp_ite]
  rw [readException.spec hm hr, skipBlock.spec (K := fun _ => True) hm hr fun _ _ _ h _ =>
    ⟨fun _ => trivial, fun _ => (wp_pure _).mpr h⟩, heq]
  constructor
  · intro h _
    exact ⟨fun he => (h.1 he).1, fun he hn => (h.2 he).2 hn⟩
  · intro h
    exact ⟨fun he => ⟨(h h4).1 he, fun _ _ => trivial⟩,
      fun he => ⟨fun _ => (wp_pure _).mpr hm, fun hn => (h h4).2 he hn⟩⟩

/-! ## What an interface token needs -/

theorem Ended.congr {p' : Parcel} (hc : p'.cells = p.cells) (hs : p'.mDataSize = p.mDataSize)
    (hp : p'.mDataPos = p.mDataPos) : Ended p' ↔ Ended p := by
  unfold Ended StringInside Terminated stringLength
  rw [hc, hs, hp]

theorem readString16.spec_ended (r : Readable c.parcel) :
    wp readString16 (MovedFrom c.parcel) never c ↔ Ended c.parcel := by
  rw [readString16.spec r]
  unfold Ended
  split
  · rename_i hin
    split
    · rename_i hend
      exact ⟨fun _ _ => hend, fun _ => hin.moved r⟩
    · rename_i hend
      exact ⟨fun h => h.elim, fun h => hend (h hin)⟩
  · rename_i hin
    exact ⟨fun _ h => absurd h hin, fun _ => r.moved_short⟩

theorem readString16_to.spec_ended {pArg : BinderString} (r : Readable c.parcel) :
    wp (readString16_to pArg) (MovedFrom c.parcel) never c ↔ Ended c.parcel := by
  rw [readString16_to.spec r]
  unfold Ended
  split
  · rename_i hin
    split
    · rename_i hend
      exact ⟨fun _ _ => hend, fun _ => hin.moved r⟩
    · rename_i hend
      exact ⟨fun h => h.elim, fun h => hend (h hin)⟩
  · rename_i hin
    exact ⟨fun _ h => absurd h hin, fun _ => r.moved_short⟩

theorem sameInterface.spec {p₀ : Parcel} {interface : BinderString} {len : Nat}
    (hlen : len ≤ STRING_INIT_CAPACITY) (m : Moved p₀ c.parcel) (r : Readable c.parcel) :
    wp (sameInterface interface len) (MovedFrom p₀) never c ↔ Ended c.parcel := by
  unfold sameInterface Ended
  rw [wp_bind, readString8Inplace.spec r]
  split
  · rename_i hin
    split
    · rename_i hend
      refine ⟨fun _ _ => hend, fun _ => ?_⟩
      have hm := m.trans (hin.moved r)
      simp only [wp_ite, wp_pure, wp_bind]
      refine ⟨fun _ => hm, fun heq => ⟨fun _ => hm, fun _ => ?_⟩⟩
      have htheirs : len = (stringLength c.parcel).toNat := by simpa using heq
      rw [wp_loadData]
      · unfold BinderString.copyTo
        rw [if_pos hlen]
        exact hm
      · have htext := hin.text_inside
        have := r.data
        show c.parcel.mDataPos + 4 + len ≤ c.parcel.cells.length
        omega
    · rename_i hend
      exact ⟨fun h => h.elim, fun h => hend (h hin)⟩
  · rename_i hin
    refine ⟨fun _ h => absurd h hin, fun _ => ?_⟩
    have hm := m.trans r.moved_short
    simp only [wp_ite, wp_pure]
    refine ⟨fun _ => hm, fun heq => ⟨fun _ => hm, fun h0 => ?_⟩⟩
    exact absurd (by simpa using heq) h0

/-- A word that is there is read. Else nothing moves. -/
theorem readWord.spec (r : Readable c.parcel) : ∃ v c', Moved c.parcel c'.parcel ∧
    (c.parcel.mDataPos + 4 ≤ c.parcel.mDataSize →
      v = wordHere c.parcel ∧ c'.parcel.mDataPos = c.parcel.mDataPos + 4) ∧
    (¬c.parcel.mDataPos + 4 ≤ c.parcel.mDataSize → c'.parcel.mDataPos = c.parcel.mDataPos) ∧
    ∀ Q : BitVec 32 → Ctx W → Prop, wp readWord Q E c ↔ Q v c' := by
  by_cases h4 : c.parcel.mDataPos + 4 ≤ c.parcel.mDataSize
  · refine ⟨wordHere c.parcel, (c.mapHeap Heap.nextLocal).mapParcel (Parcel.skip 4),
      r.moved_skip (by decide) h4, fun _ => ⟨rfl, r.sz_pos (by decide)⟩, fun h => absurd h4 h,
      fun Q => ?_⟩
    have h4' : (c.mapHeap Heap.nextLocal).parcel.mDataPos + 4 ≤
      (c.mapHeap Heap.nextLocal).parcel.mDataSize := h4
    unfold readWord
    simp only [wp_bind, wp_indeterminate]
    rw [readInt32.spec (c := c.mapHeap Heap.nextLocal) r, if_pos h4']
    exact Iff.rfl
  · refine ⟨c.heap.leftover c.heap.locals, c.mapHeap Heap.nextLocal, Moved.refl r.pos,
      fun h => absurd h h4, fun _ => rfl, fun Q => ?_⟩
    have h4' : ¬(c.mapHeap Heap.nextLocal).parcel.mDataPos + 4 ≤
      (c.mapHeap Heap.nextLocal).parcel.mDataSize := h4
    unfold readWord
    simp only [wp_bind, wp_indeterminate]
    rw [readInt32.spec (c := c.mapHeap Heap.nextLocal) r, if_neg h4']
    exact Iff.rfl

/-- Taking the policy changes the thread only. -/
theorem takePolicy.spec (strictPolicy : BitVec 32) (c : Ctx W) : ∃ w, ∀ Q : Unit → Ctx W → Prop,
    wp (takePolicy x strictPolicy) Q E c ↔ Q () (c.setWorld w) := by
  unfold takePolicy
  simp only [wp_bind, wp_thisThread]
  split
  · exact ⟨_, fun _ => Iff.rfl⟩
  · exact ⟨_, fun _ => Iff.rfl⟩

/-- Remembering where the header stands moves nothing. -/
theorem updateWorkSourceRequestHeaderPosition.spec {c : Ctx W}
    (hpos : c.parcel.mDataPos ≤ c.parcel.mDataSize) : ∃ c', Moved c.parcel c'.parcel ∧
      c'.parcel.mDataPos = c.parcel.mDataPos ∧
      ∀ Q : Unit → Ctx W → Prop, wp updateWorkSourceRequestHeaderPosition Q E c ↔ Q () c' := by
  unfold updateWorkSourceRequestHeaderPosition
  simp only [wp_bind, wp_thisParcel]
  by_cases h : c.parcel.mRequestHeaderPresent = false
  · simp only [if_pos h, wp_update]
    refine ⟨_, ?_, ?_, fun _ => Iff.rfl⟩
    · exact ⟨rfl, rfl, rfl, rfl, rfl, rfl, rfl, hpos⟩
    · rfl
  · simp only [if_neg h, wp_pure]
    exact ⟨c, Moved.refl hpos, rfl, fun _ => Iff.rfl⟩

/-- Every binder says its interface, in a string that is well formed. -/
def Describes (x : Calls W) : Prop :=
  ∀ binder w, ∃ d text w', x.getInterfaceDescriptor binder w = .ok (d, w') ∧ d.Holds text

/-- An interface token is checked to the end exactly when its string lets it. -/
theorem checkInterface.spec {binder : BitVec 64} (hd : Describes x) (r : Readable c.parcel) :
    wp (checkInterface x binder) (MovedFrom c.parcel) never c ↔ HeaderEnded c.parcel := by
  obtain ⟨d, text, w, hx, hholds⟩ := hd binder c.world
  have hlen : d.mSize ≤ STRING_INIT_CAPACITY := by
    have := hholds.fits
    rw [hholds.size]
    unfold STRING_INIT_CAPACITY
    omega
  -- the states between the steps
  obtain ⟨v₁, c₁, m₁, there₁, short₁, run₁⟩ := readWord.spec (E := never) (c := c.setWorld w) r
  obtain ⟨w₂, run₂⟩ := takePolicy.spec (x := x) (E := never) v₁ c₁
  obtain ⟨c₃, m₃, p₃, run₃⟩ := updateWorkSourceRequestHeaderPosition.spec (E := never)
    (c := c₁.setWorld w₂) m₁.pos
  have m₃ : Moved c.parcel c₃.parcel := m₁.trans m₃
  obtain ⟨v₄, c₄, m₄, there₄, short₄, run₄⟩ := readWord.spec (E := never) (c := c₃) (m₃.readable r)
  have m₄ : Moved c.parcel c₄.parcel := m₃.trans m₄
  obtain ⟨v₅, c₅, m₅, there₅, short₅, run₅⟩ := readWord.spec (E := never)
    (c := c₄.setWorld (x.putThread { x.thread c₄.world with mWorkSource := v₄ } c₄.world))
    (m₄.readable r)
  have m₅ : Moved c.parcel c₅.parcel := m₄.trans m₅
  have hrun : wp (checkInterface x binder) (MovedFrom c.parcel) never c ↔
      (v₅ = kHeader → Ended c₅.parcel) := by
    unfold checkInterface enforceInterface
    rw [wp_bind, wp_outside, wp_of_ok hx, wp_bind, run₁, wp_bind, run₂, wp_bind, run₃, wp_bind, run₄,
      wp_bind, wp_updateThread, wp_bind, run₅, wp_ite, sameInterface.spec hlen m₅ (m₅.readable r),
      wp_pure]
    exact ⟨fun h hv => h.2 (not_not.mpr hv), fun h => ⟨fun _ => m₅, fun hv => h (not_not.mp hv)⟩⟩
  simp only [Ctx.parcel_setWorld] at there₁ short₁ there₅ short₅ p₃
  rw [m₃.size] at there₄ short₄
  rw [m₄.size] at there₅ short₅
  rw [hrun]
  unfold HeaderEnded
  by_cases h12 : c.parcel.mDataPos + 12 ≤ c.parcel.mDataSize
  · obtain ⟨-, p₁⟩ := there₁ (by omega)
    obtain ⟨-, p₄⟩ := there₄ (by omega)
    obtain ⟨hv, p₅⟩ := there₅ (by omega)
    have hword : v₅ = wordHere (ahead 8 c.parcel) := by
      rw [hv]
      unfold wordHere
      rw [m₄.cells, p₄, p₃, p₁]
      rfl
    have hend : Ended c₅.parcel ↔ Ended (ahead 12 c.parcel) := by
      refine Ended.congr m₅.cells m₅.size ?_
      rw [p₅, p₄, p₃, p₁]
      rfl
    rw [hword, hend]
    exact ⟨fun h _ => h, fun h => h h12⟩
  · refine ⟨fun _ h => absurd h h12, fun _ _ hin => ?_⟩
    have h4 := hin.1
    rw [m₅.size] at h4
    omega

/-! ## The law -/

/-- A parcel as the driver hands it over: a block of as many bytes as it says, of any content. -/
structure Received (p : Parcel) : Prop where
  pos : p.mDataPos ≤ p.mDataSize
  data : p.cells.length = p.mDataSize
  fits : p.cells.length ≤ PTRDIFF_MAX

theorem Received.readable (h : Received p) : Readable p := ⟨h.pos, Nat.le_of_eq h.data.symm, h.fits⟩

theorem Received.moved {p' : Parcel} (h : Received p) (m : Moved p p') : Received p' where
  pos := m.pos
  data := by
    rw [m.cells, m.size]
    exact h.data
  fits := by
    rw [m.cells]
    exact h.fits

/-- A read of what a peer sent. -/
inductive PeerRead
  | data (r : DataRead)
  | status (st : Status)

/-- The read, without what it returns. -/
def runPeer (x : Calls W) : PeerRead → Prog (Ctx W) Fault Unit
  | .data r => runRead x r
  | .status st => do let _ ← Status.readFromParcel st

/-- What stands at the position lets the read come to its end. -/
def Acceptable : PeerRead → Ctx W → Prop
  | .data .string16, c => Ended c.parcel
  | .data (.string16To _), c => Ended c.parcel
  | .data (.interface _), c => HeaderEnded c.parcel
  | .status _, c => StatusEnded c.parcel
  | _, _ => True

/-- The read returned. It read nothing outside the data, which a fault would say, the parcel
is as before, and the position is not past the end of the data. -/
def ReadInside (c : Ctx W) : Except Fault (Unit × Ctx W) → Prop
  | .ok (_, c') => Moved c.parcel c'.parcel
  | .error _ => False

/-- One read comes to its end exactly where it is acceptable. -/
theorem runPeer.spec {o : PeerRead} (hd : Describes x) (r : Readable c.parcel) :
    wp (runPeer x o) (MovedFrom c.parcel) never c ↔ Acceptable o c := by
  have hplain : ∀ {β : Type} {m : Prog (Ctx W) Fault β}, Moves never m →
      (wp (m >>= fun _ => pure ()) (MovedFrom c.parcel) never c ↔ True) := fun hm =>
    ⟨fun _ => trivial, fun _ => (wp_bind _ _).mpr (hm c r)⟩
  cases o with
  | status st => exact (wp_bind _ _).trans (readFromParcel.spec r)
  | data o =>
    cases o with
    | int32 pArg => exact hplain (readInt32.moves pArg)
    | bool => exact hplain readBool.moves
    | pointer => exact hplain readPointer.moves
    | bytes outData len => exact hplain (read.moves outData len)
    | string16 => exact (wp_bind _ _).trans (readString16.spec_ended r)
    | string16To pArg => exact (wp_bind _ _).trans (readString16_to.spec_ended r)
    | interface binder => exact (wp_bind _ _).trans (checkInterface.spec hd r)

/-- Through any reads of any bytes that a peer sent, every read returns, inside the data and
with the position inside it, exactly when all reads are acceptable: when every string that is
read has its NUL where its length says, the message of an exception has at most 64 bytes, and
blocks that a Status read skips stay below `INT32_MAX`. -/
theorem reads_of_a_peer_return_where_they_are_acceptable (x : Calls W) (hd : Describes x)
    (reads : List PeerRead) (c : Ctx W) (h : Received c.parcel) :
    Always (runPeer x) (fun _ d result => ReadInside d result) reads c ↔
      Allowed (runPeer x) Acceptable reads c := by
  refine always_iff_of_inv (fun d => Received d.parcel) ?_ ?_ h
  · intro o d hr
    rw [← runPeer.spec hd hr.readable]
    unfold ReadInside wp
    rcases runPeer x o d with e | ⟨u, d'⟩ <;> exact Iff.rfl
  · intro o d u d' hr ha hs
    exact hr.moved (((runPeer.spec hd hr.readable).mpr ha).of_ok hs)

/-- A parcel of these bytes, as the driver hands it over. -/
def received (bytes : List UInt8) : Parcel :=
  { empty with
    mData := some ⟨0, bytes⟩
    mDataSize := bytes.length
    mDataCapacity := bytes.length
    mOwner := some .freeBuffer }

theorem quiet_describes : Describes quiet := fun _ w => ⟨hi, _, w, rfl, hi_holds⟩

theorem reads_of_a_peer_return_where_they_are_acceptable_after_a_whole_string :
    Always (runPeer quiet) (fun _ d result => ReadInside d result) [.data .string16, .data .bool]
      ⟨received [1, 0, 0, 0, 65, 0, 0, 0], plenty, ()⟩ :=
  (reads_of_a_peer_return_where_they_are_acceptable quiet quiet_describes _ _
    ⟨by decide, rfl, by decide⟩).mpr
    ⟨fun _ => by decide, fun _ _ _ => ⟨trivial, fun _ _ _ => trivial⟩⟩

/-- Two letters where the length says one: the NUL is missing, and the process ends. -/
theorem a_string_without_its_end_stops_the_reader :
    let sent := received [1, 0, 0, 0, 65, 66, 67, 0]
    Received sent ∧
      runPeer quiet (.data .string16) ⟨sent, plenty, ()⟩ = .error (.logFatal "172655291") ∧
      ¬Always (runPeer quiet) (fun _ d result => ReadInside d result) [.data .string16]
        ⟨sent, plenty, ()⟩ := by
  have hrun : runPeer quiet (.data .string16)
      ⟨received [1, 0, 0, 0, 65, 66, 67, 0], plenty, ()⟩ = .error (.logFatal "172655291") := rfl
  refine ⟨⟨by decide, rfl, by decide⟩, hrun, fun h => ?_⟩
  have h := h.1
  rw [hrun] at h
  exact h

end system_binder.Parcel
