-- What reads leave alone: a read only moves the position, and never past the
-- end of the data.
import SystemBinder.ParcelBinders
import SystemBinder.ParcelRead

open prog memory

namespace system_binder.Parcel

variable {W α β : Type} {c : Ctx W} {E : Fault → Prop}

/-- `p'` is `p` with another position inside the data. Hints and headers may differ too. -/
structure Moved (p p' : Parcel) : Prop where
  data : p'.mData = p.mData
  size : p'.mDataSize = p.mDataSize
  capacity : p'.mDataCapacity = p.mDataCapacity
  objects : p'.mObjects = p.mObjects
  objectsSize : p'.mObjectsSize = p.mObjectsSize
  objectsCapacity : p'.mObjectsCapacity = p.mObjectsCapacity
  owner : p'.mOwner = p.mOwner
  pos : p'.mDataPos ≤ p'.mDataSize

theorem Moved.refl {p : Parcel} (h : p.mDataPos ≤ p.mDataSize) : Moved p p :=
  ⟨rfl, rfl, rfl, rfl, rfl, rfl, rfl, h⟩

theorem Moved.trans {p p' p'' : Parcel} (a : Moved p p') (b : Moved p' p'') : Moved p p'' where
  data := b.data.trans a.data
  size := b.size.trans a.size
  capacity := b.capacity.trans a.capacity
  objects := b.objects.trans a.objects
  objectsSize := b.objectsSize.trans a.objectsSize
  objectsCapacity := b.objectsCapacity.trans a.objectsCapacity
  owner := b.owner.trans a.owner
  pos := b.pos

theorem Moved.cells {p p' : Parcel} (a : Moved p p') : p'.cells = p.cells := by
  unfold Parcel.cells
  rw [a.data]

theorem Moved.table {p p' : Parcel} (a : Moved p p') : p'.table = p.table := by
  unfold Parcel.table
  rw [a.objects]

theorem Moved.readable {p p' : Parcel} (a : Moved p p') (r : Readable p) : Readable p' where
  pos := a.pos
  data := by
    rw [a.size, a.cells]
    exact r.data
  fits := by
    rw [a.cells]
    exact r.fits

theorem Readable.moved_skip {p : Parcel} (r : Readable p) {n : Nat} (hn : n ≤ 2 ^ 32)
    (h : p.mDataPos + n ≤ p.mDataSize) : Moved p (Parcel.skip n p) :=
  ⟨rfl, rfl, rfl, rfl, rfl, rfl, rfl, (r.skip hn h).pos⟩

/-! ## Programs that only move -/

/-- From any readable parcel, `m` only moves, or stops with a fault in `E`. -/
def Moves (E : Fault → Prop) (m : Prog (Ctx W) Fault α) : Prop :=
  ∀ c : Ctx W, Readable c.parcel → wp m (fun _ c' => Moved c.parcel c'.parcel) E c

namespace Moves

theorem pure (a : α) : Moves E (pure a : Prog (Ctx W) Fault α) := fun _ r => Moved.refl r.pos

theorem bind {m : Prog (Ctx W) Fault α} {f : α → Prog (Ctx W) Fault β} (hm : Moves E m)
    (hf : ∀ a, Moves E (f a)) : Moves E (m >>= f) := by
  intro c r
  rw [wp_bind]
  refine wp_imp (hm c r) ?_
  intro a c' h
  exact wp_imp (hf a c' (h.readable r)) fun _ _ h' => h.trans h'

theorem ite {b : Prop} [Decidable b] {m n : Prog (Ctx W) Fault α} (hm : Moves E m)
    (hn : Moves E n) : Moves E (if b then m else n) := by
  split
  · exact hm
  · exact hn

theorem thisParcel : Moves E (thisParcel : Prog (Ctx W) Fault Parcel) := fun _ r => Moved.refl r.pos

theorem indeterminate : Moves E (indeterminate : Prog (Ctx W) Fault (BitVec 32)) :=
  fun _ r => Moved.refl r.pos

theorem outside (hE : ∀ e, E (.inCall e)) (m : Prog W Fault α) : Moves E (outside m) := by
  intro c r
  rw [wp_outside]
  exact wp_of_all (fun _ _ => Moved.refl r.pos) hE

theorem updateThread (x : Calls W) (f : ThreadState → ThreadState) : Moves E (updateThread x f) :=
  fun _ r => Moved.refl r.pos

theorem thisThread (x : Calls W) : Moves E (thisThread x) := fun _ r => Moved.refl r.pos

end Moves

/-! ## The reads -/

theorem readAligned.moves {pArg : List UInt8} {n : Nat} (hn : n ≤ 2 ^ 32) :
    Moves E (readAligned pArg n : Prog (Ctx W) Fault _) := by
  intro c r
  rw [readAligned.spec r hn]
  split
  · exact r.moved_skip hn ‹_›
  · exact Moved.refl r.pos

theorem readInt32.moves (pArg : BitVec 32) : Moves E (readInt32 pArg : Prog (Ctx W) Fault _) :=
  (readAligned.moves (by decide)).bind fun _ => Moves.pure _

theorem readBool.moves : Moves E (readBool : Prog (Ctx W) Fault _) :=
  (readInt32.moves 0).bind fun _ => Moves.pure _

theorem readPointer.moves : Moves E (readPointer : Prog (Ctx W) Fault _) :=
  (readAligned.moves (by decide)).bind fun _ => (Moves.pure _).ite (Moves.pure _)

theorem read.moves (outData : List UInt8) (len : Nat) :
    Moves E (read outData len : Prog (Ctx W) Fault _) := by
  intro c r
  rw [read.spec r]
  split
  · exact Moved.refl r.pos
  · rename_i hlen
    split
    · exact r.moved_skip (padSize_bounds (Nat.le_of_not_lt hlen)).2 ‹_›
    · exact Moved.refl r.pos

section Strings

variable {p : Parcel}

theorem StringInside.length_le (h : StringInside p) : (stringLength p).toNat + 1 ≤ INT32_MAX := by
  have hlen := toNat_of_nonneg h.2.1
  have hmax := h.2.2.1
  rw [BitVec.toInt_eq_toNat_of_lt (by omega)] at hmax
  omega

/-- The padded size of a whole string is none that wraps. -/
theorem StringInside.padded (h : StringInside p) :
    padSize ((stringLength p).toNat + 1) ≤ 2 ^ 32 := (padSize_bounds h.length_le).2

/-- The text of a whole string lies inside the data. -/
theorem StringInside.text_inside (h : StringInside p) :
    p.mDataPos + 4 + ((stringLength p).toNat + 1) ≤ p.mDataSize := by
  have hpad := (padSize_bounds h.length_le).1
  have := h.2.2.2
  omega

/-- Past a whole string. -/
theorem StringInside.skip (r : Readable p) (h : StringInside p) :
    Readable (Parcel.skip (padSize ((stringLength p).toNat + 1)) (Parcel.skip 4 p)) := by
  have h4 := r.skip (n := 4) (by decide) h.1
  refine h4.skip h.padded ?_
  have hpos : (Parcel.skip 4 p).mDataPos = p.mDataPos + 4 := r.sz_pos (by decide)
  rw [hpos]
  exact h.2.2.2

theorem StringInside.moved (r : Readable p) (h : StringInside p) :
    Moved p (Parcel.skip (padSize ((stringLength p).toNat + 1)) (Parcel.skip 4 p)) :=
  ⟨rfl, rfl, rfl, rfl, rfl, rfl, rfl, (h.skip r).pos⟩

/-- Where there is no whole string, the length word is skipped if there is one. -/
theorem Readable.moved_short (r : Readable p) :
    Moved p (if p.mDataPos + 4 ≤ p.mDataSize then Parcel.skip 4 p else p) := by
  split
  · exact r.moved_skip (by decide) ‹_›
  · exact Moved.refl r.pos

end Strings

/-- A string read moves over the string, where its NUL is missing it ends the process. -/
theorem readString8Inplace.moves (hE : ∀ s, E (.logFatal s)) :
    Moves E (readString8Inplace : Prog (Ctx W) Fault _) := by
  intro c r
  rw [readString8Inplace.spec r]
  split
  · split
    · exact StringInside.moved r ‹_›
    · exact hE _
  · exact r.moved_short

theorem readString16.moves (hE : ∀ s, E (.logFatal s)) :
    Moves E (readString16 : Prog (Ctx W) Fault _) :=
  (readString8Inplace.moves hE).bind fun _ => Moves.pure _

theorem readString16_to.moves (hE : ∀ s, E (.logFatal s)) (pArg : BinderString) :
    Moves E (readString16_to pArg : Prog (Ctx W) Fault _) := by
  intro c r
  rw [readString16_to.spec r]
  split
  · split
    · exact StringInside.moved r ‹_›
    · exact hE _
  · exact r.moved_short

theorem sameInterface.moves (hE : ∀ s, E (.logFatal s)) (hl : E .loadOutside)
    (interface : BinderString) (len : Nat) :
    Moves E (sameInterface interface len : Prog (Ctx W) Fault _) := by
  intro c r
  unfold sameInterface
  rw [wp_bind, readString8Inplace.spec r]
  split
  · rename_i hin
    split
    · have hm := StringInside.moved r hin
      simp only [wp_ite, wp_pure, wp_bind]
      refine ⟨fun _ => hm, fun heq => ⟨fun _ => hm, fun _ => ?_⟩⟩
      have hlen : len = (stringLength c.parcel).toNat := by simpa using heq
      rw [wp_loadData]
      · unfold BinderString.copyTo
        rw [wp_ite]
        exact ⟨fun _ => hm, fun _ => hl⟩
      · have htext := hin.text_inside
        have := r.data
        show c.parcel.mDataPos + 4 + len ≤ c.parcel.cells.length
        omega
    · exact hE _
  · have hm := r.moved_short
    simp only [wp_ite, wp_pure]
    refine ⟨fun _ => hm, fun heq => ⟨fun _ => hm, fun h0 => ?_⟩⟩
    exact absurd (by simpa using heq) h0

theorem updateWorkSourceRequestHeaderPosition.moves :
    Moves E (updateWorkSourceRequestHeaderPosition : Prog (Ctx W) Fault Unit) := by
  intro c r
  unfold updateWorkSourceRequestHeaderPosition
  simp only [wp_bind, wp_thisParcel, wp_ite, wp_update, wp_pure]
  exact ⟨fun _ => ⟨rfl, rfl, rfl, rfl, rfl, rfl, rfl, r.pos⟩, fun _ => Moved.refl r.pos⟩

theorem readWord.moves : Moves E (readWord : Prog (Ctx W) Fault _) :=
  Moves.indeterminate.bind fun old => (readInt32.moves old).bind fun _ => Moves.pure _

theorem takePolicy.moves (x : Calls W) (strictPolicy : BitVec 32) :
    Moves E (takePolicy x strictPolicy) :=
  (Moves.thisThread x).bind fun _ => (Moves.updateThread x _).ite (Moves.updateThread x _)

theorem checkInterface.moves (x : Calls W) (hE : ∀ s, E (.logFatal s)) (hl : E .loadOutside)
    (hc : ∀ e, E (.inCall e)) (binder : BitVec 64) : Moves E (checkInterface x binder) := by
  refine (Moves.outside hc _).bind fun descriptor => ?_
  refine readWord.moves.bind fun _ => (takePolicy.moves x _).bind fun _ =>
    updateWorkSourceRequestHeaderPosition.moves.bind fun _ => readWord.moves.bind fun _ =>
    (Moves.updateThread x _).bind fun _ => readWord.moves.bind fun _ => ?_
  exact (Moves.pure _).ite (sameInterface.moves hE hl _ _)

/-! ## Any read -/

/-- A read of data. The arguments are what the variable of the caller holds before. -/
inductive DataRead
  | int32 (pArg : BitVec 32)
  | bool
  | pointer
  | bytes (outData : List UInt8) (len : Nat)
  | string16
  | string16To (pArg : BinderString)
  | interface (binder : BitVec 64)

/-- The read, without what it returns. -/
def runRead (x : Calls W) : DataRead → Prog (Ctx W) Fault Unit
  | .int32 pArg => do let _ ← readInt32 pArg
  | .bool => do let _ ← readBool
  | .pointer => do let _ ← readPointer
  | .bytes outData len => do let _ ← read outData len
  | .string16 => do let _ ← readString16
  | .string16To pArg => do let _ ← readString16_to pArg
  | .interface binder => do let _ ← checkInterface x binder

theorem runRead.moves (x : Calls W) (hE : ∀ s, E (.logFatal s)) (hl : E .loadOutside)
    (hc : ∀ e, E (.inCall e)) (r : DataRead) : Moves E (runRead x r) := by
  cases r with
  | int32 pArg => exact (readInt32.moves pArg).bind fun _ => Moves.pure _
  | bool => exact readBool.moves.bind fun _ => Moves.pure _
  | pointer => exact readPointer.moves.bind fun _ => Moves.pure _
  | bytes outData len => exact (read.moves outData len).bind fun _ => Moves.pure _
  | string16 => exact (readString16.moves hE).bind fun _ => Moves.pure _
  | string16To pArg => exact (readString16_to.moves hE pArg).bind fun _ => Moves.pure _
  | interface binder => exact (checkInterface.moves x hE hl hc binder).bind fun _ => Moves.pure _

end system_binder.Parcel
