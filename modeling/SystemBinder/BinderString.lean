-- The text record of the binder library: 64 bytes, and a size that is not bound by them.
import SystemBinder.Base
import SystemBinder.Memory

open prog memory

namespace system_binder

def STRING_INIT_CAPACITY : Nat := 64

/-- `String` -/
structure BinderString where
  mData : List UInt8
  room : mData.length = STRING_INIT_CAPACITY
  mSize : Nat
  mCapacity : Nat
deriving DecidableEq

namespace BinderString

/-- `strncpy(mData, text, 63)`: fills with zeros, and leaves the last byte as it was. -/
def strncpy (cells text : List UInt8) : List UInt8 :=
  text.take 63 ++ List.replicate (63 - text.length) 0 ++ cells.drop 63

theorem length_strncpy {cells text : List UInt8} (h : cells.length = STRING_INIT_CAPACITY) :
    (strncpy cells text).length = STRING_INIT_CAPACITY := by
  unfold strncpy
  unfold STRING_INIT_CAPACITY at *
  rw [List.length_append, List.length_append, List.length_take, List.length_replicate,
    List.length_drop]
  omega

/-- `String_init`. `data` is the text up to its NUL, or nothing for a NULL pointer. -/
def init (str : BinderString) (data : Option (List UInt8)) : BinderString :=
  match data with
  | some text =>
    { mData := strncpy str.mData text
      room := length_strncpy str.room
      mSize := text.length
      mCapacity := STRING_INIT_CAPACITY }
  | none =>
    { mData := List.replicate STRING_INIT_CAPACITY 0
      room := List.length_replicate
      mSize := 0
      mCapacity := STRING_INIT_CAPACITY }

/-- `String_cpyto`: the first `len` bytes. -/
def copyTo {σ : Type} (str : BinderString) (len : Nat) : Prog σ Fault (List UInt8) :=
  if len ≤ STRING_INIT_CAPACITY then pure (str.mData.take len) else fault .loadOutside

theorem length_overlay_take {cells other : List UInt8} {n : Nat}
    (h : cells.length = STRING_INIT_CAPACITY) (hn : n ≤ STRING_INIT_CAPACITY) :
    (overlay cells 0 (other.take n)).length = STRING_INIT_CAPACITY := by
  rw [length_overlay, h]
  rw [List.length_take, h]
  omega

/-- The record after as many bytes of `other` were copied as it says it has. -/
def withBytesOf (str other : BinderString) (h : other.mSize ≤ STRING_INIT_CAPACITY) : BinderString :=
  { str with
    mData := overlay str.mData 0 (other.mData.take other.mSize)
    room := length_overlay_take str.room h
    mSize := other.mSize }

/-- `String_dup`. The `memcpy` stops at neither end. -/
def dup {σ : Type} (str other : BinderString) : Prog σ Fault BinderString :=
  if h : other.mSize ≤ STRING_INIT_CAPACITY then pure (str.withBytesOf other h)
  else fault .storeOutside

section

variable {σ : Type} {s : σ} {E : Fault → Prop} {Q : BinderString → σ → Prop}

theorem dup.spec {str other : BinderString} (h : other.mSize ≤ STRING_INIT_CAPACITY) :
    wp (str.dup other) Q E s ↔ Q (str.withBytesOf other h) s := by
  unfold dup
  rw [dif_pos h]
  exact Iff.rfl

theorem dup.spec_long {str other : BinderString} (h : ¬other.mSize ≤ STRING_INIT_CAPACITY) :
    wp (str.dup other) Q E s ↔ E .storeOutside := by
  unfold dup
  rw [dif_neg h]
  exact Iff.rfl

end

/-- `String_clear` -/
def clear (str : BinderString) : BinderString := str.init none

/-- A record that holds `text`: at most 63 bytes, none of them NUL, and a NUL after them. -/
structure Holds (str : BinderString) (text : List UInt8) : Prop where
  size : str.mSize = text.length
  fits : text.length ≤ 63
  bytes : str.mData.take (text.length + 1) = text ++ [0]
  noNul : 0 ∉ text

/-- A record whose first bytes, as many as it says, are `text`. -/
structure Carries (str : BinderString) (text : List UInt8) : Prop where
  size : str.mSize = text.length
  fits : text.length ≤ STRING_INIT_CAPACITY
  bytes : str.mData.take text.length = text

theorem Holds.carries {str : BinderString} {text : List UInt8} (h : str.Holds text) :
    str.Carries text where
  size := h.size
  fits := Nat.le_succ_of_le h.fits
  bytes := by
    have hb := congrArg (List.take text.length) h.bytes
    rwa [List.take_take, Nat.min_eq_left (by omega), List.take_left] at hb

/-- A text of at most 63 bytes is carried after `String_init`, whatever the last byte is. -/
theorem init_carries (str : BinderString) {text : List UInt8} (hfit : text.length ≤ 63) :
    (str.init (some text)).Carries text where
  size := rfl
  fits := Nat.le_succ_of_le hfit
  bytes := by
    show (strncpy str.mData text).take text.length = text
    unfold strncpy
    rw [List.take_of_length_le hfit, List.append_assoc, List.take_left]

/-- A text that fits is held after `String_init`. -/
theorem init_holds (str : BinderString) {text : List UInt8} (hfit : text.length ≤ 62)
    (h0 : 0 ∉ text) : (str.init (some text)).Holds text := by
  refine ⟨rfl, by omega, ?_, h0⟩
  show (strncpy str.mData text).take (text.length + 1) = text ++ [0]
  unfold strncpy
  obtain ⟨k, hk⟩ : ∃ k, 63 - text.length = k + 1 := ⟨62 - text.length, by omega⟩
  rw [List.take_of_length_le (i := 63) (by omega), List.append_assoc, List.take_length_add_append,
    hk, List.replicate_succ]
  rfl

end BinderString

end system_binder
