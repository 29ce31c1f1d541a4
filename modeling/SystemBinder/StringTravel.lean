-- The way of a text from one record to another: into a String, through a parcel
-- and into a String again. It arrives where the 64 bytes of a record hold it.
import SystemBinder.ParcelRoundTrip

open prog memory

namespace system_binder

/-! ## The text of a record -/

namespace BinderString

/-- What `String_data` says as a C string: the bytes before the first NUL of the record, nothing
where the record has no NUL. -/
def text (str : BinderString) : Option (List UInt8) :=
  if 0 ∈ str.mData then some (str.mData.takeWhile (· ≠ 0)) else none

/-- A text has room for its NUL. -/
theorem text_short {str : BinderString} {s : List UInt8} (h : str.text = some s) :
    s.length ≤ 63 := by
  unfold text at h
  split at h
  · rename_i hmem
    cases h
    have hall : ¬∀ b ∈ str.mData, b ≠ 0 := fun hno => hno 0 hmem rfl
    have hne : (str.mData.takeWhile (· ≠ 0)).length ≠ str.mData.length := by
      intro heq
      have hsame := List.IsPrefix.eq_of_length (List.takeWhile_prefix _) heq
      rw [List.takeWhile_eq_self_iff] at hsame
      exact hall fun b hb => by simpa using hsame b hb
    have hle := (List.takeWhile_prefix (fun b : UInt8 => b ≠ 0) (l := str.mData)).length_le
    have hroom : str.mData.length = 64 := str.room
    omega
  · cases h

/-- The last byte of a record, which `String_init` of a text leaves alone. -/
def lastByte (str : BinderString) : List UInt8 := str.mData.drop 63

theorem takeWhile_then_nul {s rest : List UInt8} (h0 : 0 ∉ s) :
    (s ++ 0 :: rest).takeWhile (· ≠ 0) = s := by
  induction s with
  | nil => rfl
  | cons b s ih =>
    have hb : b ≠ 0 := fun h => h0 (by simp [h])
    have hs : 0 ∉ s := fun h => h0 (by simp [h])
    rw [List.cons_append, List.takeWhile_cons_of_pos (by simpa using hb), ih hs]

/-- After `String_init` the text is there where it leaves room for a NUL, or where it is one
byte longer and the byte behind it was NUL before. -/
theorem text_init {str : BinderString} {s : List UInt8} (h0 : 0 ∉ s) (hs : s.length ≤ 63) :
    (str.init (some s)).text = some s ↔ s.length ≤ 62 ∨ str.lastByte = [0] := by
  have hdata : (str.init (some s)).mData =
      s ++ (List.replicate (63 - s.length) 0 ++ str.lastByte) := by
    show strncpy str.mData s = _
    unfold strncpy lastByte
    rw [List.take_of_length_le hs, List.append_assoc]
  unfold text
  rw [hdata]
  by_cases hroom : s.length ≤ 62
  · obtain ⟨k, hk⟩ : ∃ k, 63 - s.length = k + 1 := ⟨62 - s.length, by omega⟩
    rw [hk, List.replicate_succ, List.cons_append, takeWhile_then_nul h0, if_pos (by simp)]
    exact ⟨fun _ => .inl hroom, fun _ => rfl⟩
  · have hlast : str.lastByte.length = 1 := by
      unfold lastByte
      rw [List.length_drop, str.room]
      rfl
    obtain ⟨b, hb⟩ := List.length_eq_one_iff.mp hlast
    have hzero : 63 - s.length = 0 := by omega
    rw [hzero, List.replicate_zero, List.nil_append, hb]
    by_cases hnul : b = 0
    · subst hnul
      rw [takeWhile_then_nul h0, if_pos (by simp)]
      exact ⟨fun _ => .inr rfl, fun _ => rfl⟩
    · rw [if_neg (by simp [h0, Ne.symm hnul])]
      constructor
      · intro h
        cases h
      · intro h
        rcases h with h62 | hlast1
        · exact absurd h62 hroom
        · cases hlast1
          exact absurd rfl hnul

end BinderString

/-! ## The way -/

namespace Parcel

variable {W : Type} {x : Outside W} {c : Ctx W} {E : Fault → Prop}

/-- The text `s` in the record `a`, written into a parcel and read into the record `b`: the
status of the write, that of the read, and `b` after it. -/
def travel (x : Outside W) (a b : BinderString) (s : List UInt8) :
    Prog (Ctx W) Fault (Int × Int × BinderString) := do
  let sent ← writeString16 x (some (a.init (some s)))
  setDataPosition 0
  let (received, b) ← readString16_to b
  pure (sent, received, b)

/-- A text that the record carries comes through the parcel. -/
theorem travel.spec {a b : BinderString} {s : List UInt8} (h0 : 0 ∉ s) (hs : s.length ≤ 63)
    (hempty : c.parcel = empty) (ha : Ample c.heap) :
    wp (travel x a b s) (fun r _ => r = (STATUS_OK, STATUS_OK, b.init (some s))) E c := by
  have l : Local c.parcel := by
    rw [hempty]
    exact empty_local
  have hpos : c.parcel.mDataPos = 0 := by rw [hempty]; rfl
  have hsize : c.parcel.mDataSize = 0 := by rw [hempty]; rfl
  have hpad : padSize (s.length + 1) = (s.length + 1 + 3) / 4 * 4 :=
    padSize_of_le (by unfold INT32_MAX; omega)
  unfold travel
  rw [wp_bind]
  refine writeString16.spec (a.init_carries hs) l (fun c1 adv hlen htext => ?_)
    (fun r c1 _ _ _ hno => ?_)
  · have hsize1 : c1.parcel.mDataSize = 4 + padSize (s.length + 1) := by
      rw [adv.size, hpos, hsize]
      omega
    rw [wp_bind, setDataPosition.spec (Nat.zero_le _), wp_bind]
    have r1 := adv.isLocal.readable
    generalize hback : (c1.mapParcel fun p => { p with
      mDataPos := 0, mNextObjectHint := 0, mObjectsSorted := false }) = c2
    have r2 : Readable c2.parcel := by
      subst hback
      exact ⟨Nat.zero_le _, r1.data, r1.fits⟩
    have stands : StringStands c2.parcel s := by
      subst hback
      rw [hpos] at hlen htext
      refine ⟨hlen, htext, ?_, by omega⟩
      show 0 + 4 + _ ≤ c1.parcel.mDataSize
      omega
    rw [readString16_to.spec r2, if_pos stands.stringInside, if_pos stands.terminated, wp_pure]
    subst hback
    have htravel : textAt c1.parcel.cells (0 + 4) = s := by
      rw [hpos] at htext
      exact textAt_eq h0 htext
    exact congrArg (fun t => (STATUS_OK, STATUS_OK, b.init (some t))) htravel
  · exfalso
    rcases hno with h | ⟨c2, adv, h | h | h⟩
    · exact can_grow ha (by omega) h
    · unfold INT32_MAX at h
      omega
    · unfold INT32_MAX at h
      omega
    · refine can_grow (c := c2) (by unfold Ample; rw [adv.fresh]; exact ha) ?_ h
      rw [adv.size]
      omega

/-- The text arrives: nothing outside the record `a` is read, the read is OK, and `b` has the
text and its size. -/
def Arrives (x : Outside W) (c : Ctx W) (a b : BinderString) (s : List UInt8) : Prop :=
  wp (travel x a b s) (fun r _ => r.2.1 = STATUS_OK ∧ r.2.2.mSize = s.length ∧
    r.2.2.text = some s) never c

/-- With memory for the parcel to be had, a text arrives exactly when it has at most 62 bytes, or
63 where the last byte of the receiving record was NUL before. -/
theorem a_text_arrives_where_it_fits (x : Outside W) (c : Ctx W) (hempty : c.parcel = empty)
    (ha : Ample c.heap) (a b : BinderString) (s : List UInt8) (h0 : 0 ∉ s) :
    Arrives x c a b s ↔ s.length ≤ 62 ∨ s.length = 63 ∧ b.lastByte = [0] := by
  unfold Arrives
  by_cases hs : s.length ≤ 63
  · have hrun := travel.spec (x := x) (a := a) (b := b) (E := never) h0 hs hempty ha
    have hinit : (b.init (some s)).text = some s ↔ s.length ≤ 62 ∨ b.lastByte = [0] :=
      BinderString.text_init h0 hs
    constructor
    · intro h
      obtain ⟨r, c', hr, hgot⟩ := wp_never_iff.mp hrun
      have htext := (h.of_ok hr).2.2
      rw [hgot, hinit] at htext
      rcases htext with h62 | hlast
      · exact .inl h62
      · by_cases h62 : s.length ≤ 62
        · exact .inl h62
        · exact .inr ⟨by omega, hlast⟩
    · intro h
      refine wp_imp hrun ?_
      rintro r c' rfl
      refine ⟨rfl, rfl, hinit.mpr ?_⟩
      rcases h with h62 | ⟨-, hlast⟩
      · exact .inl h62
      · exact .inr hlast
  · refine ⟨fun h => ?_, fun h => by omega⟩
    obtain ⟨r, c', -, -, -, htext⟩ := wp_never_iff.mp h
    exact absurd (BinderString.text_short htext) hs

theorem a_text_arrives_where_it_fits_in_three_letters :
    Arrives silent ⟨empty, plenty, ()⟩ hi hi [97, 98, 99] := by
  have ample : Ample plenty := fun n h => by cases h
  have hletters : (0 : UInt8) ∉ [(97 : UInt8), 98, 99] := by simp
  have hfits := a_text_arrives_where_it_fits silent ⟨empty, plenty, ()⟩ rfl ample hi hi
    [97, 98, 99] hletters
  rw [hfits]
  exact .inl (by simp)

/-- A service name of 64 letters is cut in its record, and does not arrive. -/
theorem a_name_of_64_letters_does_not_arrive :
    ¬Arrives silent ⟨empty, plenty, ()⟩ hi hi (List.replicate 64 97) := by
  unfold Arrives
  rw [wp_never_iff]
  intro h
  obtain ⟨r, c', -, -, -, htext⟩ := h
  have hshort := BinderString.text_short htext
  rw [List.length_replicate] at hshort
  omega

end Parcel

end system_binder
