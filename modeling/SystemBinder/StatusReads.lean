-- What a Status that is read from a parcel says, and where the read leaves the parcel.
import SystemBinder.ParcelPeer

open prog memory

namespace system_binder

namespace Parcel

variable {W : Type} {x : Calls W}

/-! ## The statuses of the reads -/

/-- The statuses that the reads of a parcel return. -/
def readStatuses : List Int :=
  [STATUS_OK, STATUS_BAD_VALUE, STATUS_BAD_TYPE, STATUS_NOT_ENOUGH_DATA, STATUS_UNEXPECTED_NULL,
    STATUS_UNKNOWN_ERROR]

theorem toInt_of_mem_readStatuses {status : Int} (h : status ∈ readStatuses) :
    (BitVec.ofInt 32 status).toInt = status := by
  have hall : ∀ status ∈ readStatuses, (BitVec.ofInt 32 status).toInt = status := by decide
  exact hall status h

/-- The program returns a status of a read. -/
abbrev ReturnsStatus {α : Type} (m : Prog (Ctx W) Fault (Int × α)) : Prop :=
  Returns (fun a => a.1 ∈ readStatuses) m

theorem readAligned.returns (pArg : List UInt8) (size : Nat) :
    ReturnsStatus (readAligned pArg size : Prog (Ctx W) Fault _) := by
  have hok : STATUS_OK ∈ readStatuses := by decide
  have hshort : STATUS_NOT_ENOUGH_DATA ∈ readStatuses := by decide
  exact .after fun _ => .ite (fun _ => .after fun _ => .after fun _ => .pure hok)
    fun _ => .pure hshort

theorem readInt32.returns (pArg : BitVec 32) :
    ReturnsStatus (readInt32 pArg : Prog (Ctx W) Fault _) :=
  (readAligned.returns _ _).bind fun _ h => .pure h

theorem readBool.returns : ReturnsStatus (readBool : Prog (Ctx W) Fault _) :=
  (readInt32.returns _).bind fun _ h => .pure h

theorem readString16_to.returns (pArg : BinderString) :
    ReturnsStatus (readString16_to pArg : Prog (Ctx W) Fault _) := by
  have hok : STATUS_OK ∈ readStatuses := by decide
  have hvalue : STATUS_BAD_VALUE ∈ readStatuses := by decide
  refine .after fun str => ?_
  cases str with
  | none => exact .pure hvalue
  | some str => exact .after fun _ => .pure hok

theorem setRepr.returns (binder : BitVec 64) (setting : BitVec 32) (allowDowngrade : Bool) :
    Returns (fun status => status ∈ readStatuses)
      (Stability.setRepr x binder setting allowDowngrade) := by
  have hok : STATUS_OK ∈ readStatuses := by decide
  have htype : STATUS_BAD_TYPE ∈ readStatuses := by decide
  refine .after fun _ => .ite (fun _ => .pure ?_) fun _ => .ite (fun _ => .pure htype) fun _ =>
    .ite (fun _ => .pure hok) fun _ => .ite (fun _ => .pure htype) fun _ => ?_
  · split
    · exact hok
    · exact htype
  · exact .after fun _ => .after fun _ => .pure hok

theorem finishUnflattenBinder.returns (binder : BitVec 64) :
    ReturnsStatus (finishUnflattenBinder x binder) := by
  have hok : STATUS_OK ∈ readStatuses := by decide
  refine .after fun _ => (readInt32.returns _).bind fun _ h => .ite (fun _ => .pure h) fun _ => ?_
  refine Returns.bind (P := fun status => status ∈ readStatuses) (fun c => ?_) fun _ h =>
    .ite (fun _ => .pure h) fun _ => .pure hok
  rw [wp_outside]
  exact setRepr.returns _ _ _ c.world

theorem readStrongBinder.returns : ReturnsStatus (readStrongBinder x) := by
  have htype : STATUS_BAD_TYPE ∈ readStatuses := by decide
  have hnull : STATUS_UNEXPECTED_NULL ∈ readStatuses := by decide
  refine Returns.bind (P := fun a => a.1 ∈ readStatuses) (.after fun flat => ?_) fun _ h =>
    .ite (fun _ => .pure hnull) fun _ => .pure h
  cases flat with
  | none => exact .pure htype
  | some flat =>
    exact .ite (fun _ => .after fun _ => finishUnflattenBinder.returns _) fun _ =>
      .ite (fun _ => .after fun _ => finishUnflattenBinder.returns _) fun _ => .pure htype

end Parcel

namespace Parcel

variable {W α β : Type} {c : Ctx W}

/-! ## Reads that only move on -/

/-- `p'` is `p` at the same place or further on, inside the data. -/
def Onward (p p' : Parcel) : Prop := Moved p p' ∧ p.mDataPos ≤ p'.mDataPos

theorem Onward.refl {p : Parcel} (r : Readable p) : Onward p p := ⟨Moved.refl r.pos, Nat.le_refl _⟩

theorem Onward.trans {p p' p'' : Parcel} (a : Onward p p') (b : Onward p' p'') : Onward p p'' :=
  ⟨a.1.trans b.1, Nat.le_trans a.2 b.2⟩

/-- If the program returns, it has moved on inside the data. -/
def GoesOn (m : Prog (Ctx W) Fault α) : Prop :=
  ∀ c, Readable c.parcel → wp m (fun _ c' => Onward c.parcel c'.parcel) (fun _ => True) c

namespace GoesOn

theorem pure (a : α) : GoesOn (pure a : Prog (Ctx W) Fault α) := fun _ r => Onward.refl r

theorem bind {m : Prog (Ctx W) Fault α} {f : α → Prog (Ctx W) Fault β} (hm : GoesOn m)
    (hf : ∀ a, GoesOn (f a)) : GoesOn (m >>= f) := by
  intro c r
  rw [wp_bind]
  refine wp_imp (hm c r) fun a c' ha => ?_
  exact wp_imp (hf a c' (ha.1.readable r)) fun _ _ hb => ha.trans hb

theorem ite {b : Prop} [Decidable b] {m m' : Prog (Ctx W) Fault α} (hm : GoesOn m)
    (hm' : GoesOn m') : GoesOn (if b then m else m') := by
  intro c r
  rw [wp_ite]
  exact ⟨fun _ => hm c r, fun _ => hm' c r⟩

end GoesOn

theorem Readable.onward_skip {p : Parcel} (r : Readable p) {n : Nat} (hn : n ≤ 2 ^ 32)
    (h : p.mDataPos + n ≤ p.mDataSize) : Onward p (Parcel.skip n p) := by
  refine ⟨r.moved_skip hn h, ?_⟩
  rw [r.skip_eq hn]
  exact Nat.le_add_right _ _

theorem readInt32.goesOn (pArg : BitVec 32) : GoesOn (readInt32 pArg : Prog (Ctx W) Fault _) := by
  intro c r
  rw [readInt32.spec r]
  split
  · exact r.onward_skip (by decide) ‹_›
  · exact Onward.refl r

theorem readString16_to.goesOn (pArg : BinderString) :
    GoesOn (readString16_to pArg : Prog (Ctx W) Fault _) := by
  intro c r
  rw [readString16_to.spec r]
  split
  · rename_i hin
    split
    · have hpos : c.parcel.mDataPos ≤ (Parcel.skip (padSize ((stringLength c.parcel).toNat + 1))
          (Parcel.skip 4 c.parcel)).mDataPos := by
        rw [hin.skip_eq r]
        exact Nat.le_add_right _ _
      exact ⟨hin.moved r, hpos⟩
    · trivial
  · have hpos : c.parcel.mDataPos ≤ (if c.parcel.mDataPos + 4 ≤ c.parcel.mDataSize
        then Parcel.skip 4 c.parcel else c.parcel).mDataPos := by
      split
      · exact (r.onward_skip (by decide) ‹_›).2
      · exact Nat.le_refl _
    exact ⟨r.moved_short, hpos⟩

/-- The end of a block lies inside the data, whatever size the block says it has. -/
theorem skipBlock.goesOn {always : Bool} {st : Status} {next : Prog (Ctx W) Fault (Int × Status)}
    (h : GoesOn next) : GoesOn (Status.skipBlock always st next) := by
  intro c r
  unfold Status.skipBlock dataPosition
  simp only [wp_bind, wp_thisParcel, wp_pure]
  rw [blockSize.spec r]
  split
  · trivial
  have hsize : Onward c.parcel (afterSize c).parcel := by
    refine ⟨moved_afterSize r, ?_⟩
    unfold afterSize
    split
    · exact (r.onward_skip (n := 4) (by decide) ‹_›).2
    · exact Nat.le_refl _
  rcases hb : blockHere c.parcel with ⟨status, n⟩
  dsimp only
  rw [wp_ite]
  refine ⟨fun _ => hsize, fun hok => ?_⟩
  have hb' : blockHere c.parcel = (STATUS_OK, n) := by rw [hb, not_not.mp hok]
  have hin := blockHere_inside r hb'
  unfold Status.moveOver
  rw [wp_bind, wp_ite, wp_pure, setDataPosition.spec_all]
  refine ⟨fun _ => ?_, fun _ => ?_⟩
  · split
    · trivial
    · have hto : Onward c.parcel ((afterSize c).mapParcel fun p => { p with
          mDataPos := c.parcel.mDataPos + n, mNextObjectHint := 0, mObjectsSorted := false }).parcel := by
        refine ⟨(moved_afterSize r).to (by rw [(moved_afterSize r).size]; exact hin), ?_⟩
        exact Nat.le_add_right _ _
      exact wp_imp (h _ (hto.1.readable r)) fun _ _ hnext => hto.trans hnext
  · exact wp_imp (h _ (hsize.1.readable r)) fun _ _ hnext => hsize.trans hnext

theorem readDetails.goesOn (st : Status) :
    GoesOn (Status.readDetails st : Prog (Ctx W) Fault _) :=
  .ite ((readInt32.goesOn _).bind fun _ => .ite (.pure _) (.pure _))
    (.ite (skipBlock.goesOn (.pure _)) (.pure _))

theorem readFromParcel.goesOn (st : Status) :
    GoesOn (Status.readFromParcel st : Prog (Ctx W) Fault _) := by
  have hstring : GoesOn (Status.indeterminateString : Prog (Ctx W) Fault _) :=
    fun _ r => Onward.refl r
  have hdup : ∀ s t : BinderString, GoesOn (s.dup t : Prog (Ctx W) Fault _) := by
    intro s t
    unfold BinderString.dup
    split
    · exact .pure _
    · exact fun _ _ => trivial
  refine (readInt32.goesOn _).bind fun _ => .ite (.pure _)
    (.ite (skipBlock.goesOn (.pure _)) (.ite (.pure _) ?_))
  exact hstring.bind fun _ => (readString16_to.goesOn _).bind fun _ => .ite (.pure _)
    ((hdup _ _).bind fun _ => skipBlock.goesOn (readDetails.goesOn _))

/-! ## What the Status says -/

/-- An error is in the Status, and a success leaves the exception `e`. -/
def Recorded (e : BitVec 32) (a : Int × Status) : Prop :=
  (a.1 ≠ STATUS_OK → a.2.mException = EX_TRANSACTION_FAILED ∧ a.2.mErrorCode.toInt = a.1) ∧
    (a.1 = STATUS_OK → a.2.mException = e)

theorem failWith.recorded {e : BitVec 32} {st : Status} {status : Int}
    (hmem : status ∈ readStatuses) (hne : status ≠ STATUS_OK) :
    Returns (Recorded e) (Status.failWith st status : Prog (Ctx W) Fault _) := by
  refine .pure ⟨fun _ => ?_, fun hok => absurd hok hne⟩
  unfold Status.setFromStatusT
  rw [if_neg hne]
  exact ⟨rfl, toInt_of_mem_readStatuses hmem⟩

theorem recorded_ok {e : BitVec 32} {st : Status} (h : st.mException = e) :
    Recorded e (STATUS_OK, st) := ⟨fun hne => absurd rfl hne, fun _ => h⟩

theorem blockSize.returns : ReturnsStatus (Status.blockSize : Prog (Ctx W) Fault _) := by
  have hok : STATUS_OK ∈ readStatuses := by decide
  have hunknown : STATUS_UNKNOWN_ERROR ∈ readStatuses := by decide
  exact .after fun _ => .after fun _ => (readInt32.returns _).bind fun _ h =>
    .ite (fun _ => .pure h) fun _ => .ite (fun _ => .pure hunknown) fun _ => .pure hok

theorem skipBlock.recorded {e : BitVec 32} {always : Bool} {st : Status}
    {next : Prog (Ctx W) Fault (Int × Status)} (h : Returns (Recorded e) next) :
    Returns (Recorded e) (Status.skipBlock always st next) :=
  .after fun _ => blockSize.returns.bind fun _ hmem =>
    .ite (failWith.recorded hmem) fun _ => .after fun _ => h

theorem readDetails.recorded (st : Status) :
    Returns (Recorded st.mException) (Status.readDetails st : Prog (Ctx W) Fault _) := by
  refine .ite (fun _ => ?_) fun _ => .ite (fun _ => ?_) fun _ => .pure (recorded_ok rfl)
  · exact (readInt32.returns _).bind fun _ hmem =>
      .ite (failWith.recorded hmem) fun _ => .pure (recorded_ok rfl)
  · exact skipBlock.recorded (.pure (recorded_ok rfl))

theorem readException.recorded (st : Status) :
    Returns (Recorded st.mException) (Status.readException st : Prog (Ctx W) Fault _) :=
  .after fun _ => (readString16_to.returns _).bind fun _ hmem =>
    .ite (failWith.recorded hmem) fun _ => .after fun _ =>
      skipBlock.recorded (readDetails.recorded _)

/-- The exception that a Status read leaves where it succeeds. -/
def readExceptionOf (p : Parcel) : BitVec 32 :=
  if wordHere p = EX_HAS_REPLY_HEADER then EX_NONE else wordHere p

theorem readFromParcel.recorded (st : Status) (r : Readable c.parcel) :
    wp (Status.readFromParcel st) (fun a _ => Recorded (readExceptionOf c.parcel) a)
      (fun _ => True) c := by
  unfold Status.readFromParcel
  rw [wp_bind, readInt32.spec r]
  have hmem : STATUS_NOT_ENOUGH_DATA ∈ readStatuses := by decide
  split
  · dsimp only
    rw [if_neg (by simp)]
    have hword : bytesWord 32 (window c.parcel.cells c.parcel.mDataPos 4) = wordHere c.parcel := rfl
    rw [hword]
    unfold readExceptionOf
    split
    · exact skipBlock.recorded (.pure (recorded_ok rfl)) _
    · rw [wp_ite, wp_pure]
      exact ⟨fun _ => recorded_ok rfl, fun _ => readException.recorded _ _⟩
  · exact failWith.recorded hmem (by decide) _

/-- What a Status read does where it returns: it stays between the place where it starts and the
end of the data, an error is in the Status, and a success leaves the exception that stands there,
or none for a reply header. -/
theorem a_status_read_stays_inside_and_says_its_error (st : Status) (c : Ctx W)
    (r : Readable c.parcel) {status : Int} {st' : Status} {c' : Ctx W}
    (hrun : Status.readFromParcel st c = .ok ((status, st'), c')) :
    c'.parcel.mDataSize = c.parcel.mDataSize ∧
      c.parcel.mDataPos ≤ c'.parcel.mDataPos ∧ c'.parcel.mDataPos ≤ c.parcel.mDataSize ∧
      (status ≠ STATUS_OK →
        st'.mException = EX_TRANSACTION_FAILED ∧ st'.mErrorCode.toInt = status) ∧
      (status = STATUS_OK → st'.mException =
        if wordHere c.parcel = EX_HAS_REPLY_HEADER then EX_NONE else wordHere c.parcel) := by
  obtain ⟨hmoved, hforth⟩ := (readFromParcel.goesOn st c r).of_ok hrun
  obtain ⟨hbad, hgood⟩ := (readFromParcel.recorded st r).of_ok hrun
  have hpos := hmoved.pos
  rw [hmoved.size] at hpos
  exact ⟨hmoved.size, hforth, hpos, hbad, hgood⟩

/-- An exception whose message is cut off: the error is in the Status. -/
theorem a_status_read_stays_inside_and_says_its_error_of_a_cut_message :
    ∃ (st' : Status) (c' : Ctx Unit), Status.readFromParcel ⟨EX_NONE, 0, hi⟩
        ⟨received [253, 255, 255, 255, 9, 0, 0, 0], plenty, ()⟩ =
          .ok ((STATUS_BAD_VALUE, st'), c') ∧
      c'.parcel.mDataPos ≤ 8 ∧ st'.mException = EX_TRANSACTION_FAILED ∧
      st'.mErrorCode.toInt = STATUS_BAD_VALUE := by
  have hrun : wp (Status.readFromParcel ⟨EX_NONE, 0, hi⟩)
      (fun a (_ : Ctx Unit) => a.1 = STATUS_BAD_VALUE) never
      ⟨received [253, 255, 255, 255, 9, 0, 0, 0], plenty, ()⟩ := by decide +kernel
  obtain ⟨⟨status, st'⟩, c', hrun, hbad⟩ := wp_never_iff.mp hrun
  have hbad : status = STATUS_BAD_VALUE := hbad
  subst hbad
  obtain ⟨-, -, hpos, herror, -⟩ := a_status_read_stays_inside_and_says_its_error _ _
    ⟨by decide, by decide, by decide⟩ hrun
  obtain ⟨hexception, hcode⟩ := herror (by decide)
  exact ⟨st', c', hrun, hpos, hexception, hcode⟩

end Parcel

end system_binder
