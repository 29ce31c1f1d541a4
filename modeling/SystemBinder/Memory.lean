-- Blocks of memory: reading and writing some cells of a list, growing it, and
-- numbers stored as little-endian bytes.
import Mathlib

namespace memory

variable {α : Type}

/-- A block: the address it stands at and its cells. -/
structure Block (α : Type) where
  address : Nat
  cells : List α
deriving DecidableEq, Repr

/-- The `n` cells from `pos` on. -/
def window (cells : List α) (pos n : Nat) : List α := (cells.drop pos).take n

/-- The cells with `xs` stored from `pos` on. -/
def overlay (cells : List α) (pos : Nat) (xs : List α) : List α :=
  cells.take pos ++ xs ++ cells.drop (pos + xs.length)

/-- A list of `n` cells that starts as `old` does. The cells it adds hold what `g` left there. -/
def resized (old : List α) (n : Nat) (g : Nat → α) : List α :=
  old.take n ++ ((List.range n).map g).drop old.length

/-! ## Windows -/

theorem getElem?_window (cells : List α) (pos n i : Nat) :
    (window cells pos n)[i]? = if i < n then cells[pos + i]? else none := by
  unfold window
  split
  · rename_i h
    rw [List.getElem?_take_of_lt h, List.getElem?_drop]
  · rename_i h
    rw [List.getElem?_take_eq_none (by omega)]

theorem length_window {cells : List α} {pos n : Nat} (h : pos + n ≤ cells.length) :
    (window cells pos n).length = n := by
  unfold window
  rw [List.length_take, List.length_drop]
  omega

theorem window_congr {cells cells' : List α} {pos n : Nat}
    (h : ∀ i, pos ≤ i → i < pos + n → cells[i]? = cells'[i]?) :
    window cells pos n = window cells' pos n := by
  apply List.ext_getElem?
  intro i
  rw [getElem?_window, getElem?_window]
  split
  · exact h (pos + i) (by omega) (by omega)
  · rfl

/-- A window inside a window. -/
theorem window_window {cells : List α} {pos n q m : Nat} (h : q + m ≤ n) :
    window (window cells pos n) q m = window cells (pos + q) m := by
  apply List.ext_getElem?
  intro i
  simp only [getElem?_window]
  split
  · rw [if_pos (by omega), Nat.add_assoc]
  · rfl

theorem window_append {cells : List α} {pos n m : Nat} :
    window cells pos (n + m) = window cells pos n ++ window cells (pos + n) m := by
  unfold window
  rw [List.take_add, List.drop_drop]

theorem window_zero (cells : List α) (pos : Nat) : window cells pos 0 = [] := by
  unfold window
  rw [List.take_zero]

/-! ## Stores -/

theorem length_overlay {cells xs : List α} {pos : Nat} (h : pos + xs.length ≤ cells.length) :
    (overlay cells pos xs).length = cells.length := by
  unfold overlay
  rw [List.length_append, List.length_append, List.length_take, List.length_drop]
  omega

theorem getElem?_overlay {cells xs : List α} {pos : Nat} (h : pos + xs.length ≤ cells.length)
    (i : Nat) : (overlay cells pos xs)[i]? =
      if pos ≤ i ∧ i < pos + xs.length then xs[i - pos]? else cells[i]? := by
  unfold overlay
  have hp : (cells.take pos).length = pos := by
    rw [List.length_take]
    omega
  have hx : (cells.take pos ++ xs).length = pos + xs.length := by
    rw [List.length_append, hp]
  by_cases hi : i < pos
  · rw [if_neg (by omega), List.getElem?_append_left (by omega),
      List.getElem?_append_left (by omega), List.getElem?_take_of_lt hi]
  · by_cases hj : i < pos + xs.length
    · rw [if_pos ⟨by omega, hj⟩, List.getElem?_append_left (by omega),
        List.getElem?_append_right (by omega), hp]
    · rw [if_neg (by omega), List.getElem?_append_right (by omega), hx, List.getElem?_drop]
      congr 1
      omega

theorem window_overlay_same {cells xs : List α} {pos : Nat}
    (h : pos + xs.length ≤ cells.length) : window (overlay cells pos xs) pos xs.length = xs := by
  apply List.ext_getElem?
  intro i
  rw [getElem?_window, getElem?_overlay h]
  split
  · rw [if_pos (by omega)]
    congr 1
    omega
  · rw [List.getElem?_eq_none (by omega)]

theorem window_overlay_other {cells xs : List α} {pos q n : Nat}
    (h : pos + xs.length ≤ cells.length) (hq : q + n ≤ pos ∨ pos + xs.length ≤ q) :
    window (overlay cells pos xs) q n = window cells q n := by
  apply window_congr
  intro i hi hj
  rw [getElem?_overlay h, if_neg (by omega)]

/-- A copy of the first `n` cells. -/
theorem window_copied {cells old : List α} {n q m : Nat} (hold : n ≤ old.length)
    (hcells : n ≤ cells.length) (hq : q + m ≤ n) :
    window (overlay cells 0 (window old 0 n)) q m = window old q m := by
  have hlen : (window old 0 n).length = n := length_window (by omega)
  have hsame : window (overlay cells 0 (window old 0 n)) 0 n = window old 0 n := by
    have hfit : 0 + (window old 0 n).length ≤ cells.length := by omega
    have := window_overlay_same hfit
    rwa [hlen] at this
  have hleft : window (window (overlay cells 0 (window old 0 n)) 0 n) q m =
      window (overlay cells 0 (window old 0 n)) (0 + q) m := window_window hq
  rw [hsame, window_window hq, Nat.zero_add] at hleft
  exact hleft.symm

/-! ## Growth -/

theorem length_resized (old : List α) (n : Nat) (g : Nat → α) :
    (resized old n g).length = n := by
  unfold resized
  rw [List.length_append, List.length_take, List.length_drop, List.length_map, List.length_range]
  omega

theorem window_resized {old : List α} {n q m : Nat} (g : Nat → α) (hq : q + m ≤ old.length)
    (hn : q + m ≤ n) : window (resized old n g) q m = window old q m := by
  apply window_congr
  intro i _ hi
  unfold resized
  rw [List.getElem?_append_left (by rw [List.length_take]; omega),
    List.getElem?_take_of_lt (by omega)]

theorem getElem?_resized {old : List α} {n i : Nat} (g : Nat → α) (hi : i < old.length)
    (hn : i < n) : (resized old n g)[i]? = old[i]? := by
  unfold resized
  rw [List.getElem?_append_left (by rw [List.length_take]; omega), List.getElem?_take_of_lt hn]

/-! ## Little-endian words -/

/-- The `k` low bytes of a number, lowest first. -/
def toBytes : Nat → Nat → List UInt8
  | 0, _ => []
  | k + 1, n => UInt8.ofNat n :: toBytes k (n / 256)

/-- The number that some bytes stand for, lowest first. -/
def ofBytes : List UInt8 → Nat
  | [] => 0
  | b :: bs => b.toNat + 256 * ofBytes bs

@[simp] theorem length_toBytes (k n : Nat) : (toBytes k n).length = k := by
  induction k generalizing n with
  | zero => rfl
  | succ k ih => rw [toBytes, List.length_cons, ih]

theorem getElem?_toBytes (k n i : Nat) :
    (toBytes k n)[i]? = if i < k then some (UInt8.ofNat (n / 256 ^ i)) else none := by
  induction k generalizing n i with
  | zero => rfl
  | succ k ih =>
    rcases i with _ | i
    · simp [toBytes]
    · rw [toBytes, List.getElem?_cons_succ, ih, Nat.pow_succ', Nat.div_div_eq_div_mul]
      simp only [Nat.add_lt_add_iff_right]

theorem ofBytes_toBytes (k n : Nat) : ofBytes (toBytes k n) = n % 256 ^ k := by
  induction k generalizing n with
  | zero => rw [toBytes, ofBytes, Nat.pow_zero, Nat.mod_one]
  | succ k ih =>
    rw [toBytes, ofBytes, ih, Nat.pow_succ', Nat.mod_mul]
    rfl

/-- A word of `8 * k` bits as bytes. -/
def wordBytes {w : Nat} (k : Nat) (x : BitVec w) : List UInt8 := toBytes k x.toNat

/-- The word that some bytes hold. -/
def bytesWord (w : Nat) (bs : List UInt8) : BitVec w := BitVec.ofNat w (ofBytes bs)

@[simp] theorem length_wordBytes {w : Nat} (k : Nat) (x : BitVec w) :
    (wordBytes k x).length = k := length_toBytes k _

theorem bytesWord_wordBytes {w k : Nat} (hw : w = 8 * k) (x : BitVec w) :
    bytesWord w (wordBytes k x) = x := by
  subst hw
  unfold bytesWord wordBytes
  rw [ofBytes_toBytes]
  apply BitVec.eq_of_toNat_eq
  have h := x.isLt
  rw [BitVec.toNat_ofNat]
  have hp : 256 ^ k = 2 ^ (8 * k) := by
    rw [Nat.pow_mul]
  rw [hp, Nat.mod_mod, Nat.mod_eq_of_lt h]

theorem ofBytes_lt (bs : List UInt8) : ofBytes bs < 256 ^ bs.length := by
  induction bs with
  | nil => simp [ofBytes]
  | cons b bs ih =>
    have hb := b.toNat_lt
    rw [ofBytes, List.length_cons, Nat.pow_succ']
    omega

theorem toBytes_ofBytes (bs : List UInt8) : toBytes bs.length (ofBytes bs) = bs := by
  induction bs with
  | nil => rfl
  | cons b bs ih =>
    have hb := b.toNat_lt
    have hhead : UInt8.ofNat (b.toNat + 256 * ofBytes bs) = b := by
      apply UInt8.toNat_inj.mp
      rw [UInt8.toNat_ofNat']
      omega
    have htail : (b.toNat + 256 * ofBytes bs) / 256 = ofBytes bs := by omega
    rw [ofBytes, List.length_cons, toBytes, hhead, htail, ih]

/-- Bytes are those of the word that they hold. -/
theorem wordBytes_bytesWord {w k : Nat} (hw : w = 8 * k) {bs : List UInt8} (h : bs.length = k) :
    wordBytes k (bytesWord w bs) = bs := by
  subst hw h
  unfold wordBytes bytesWord
  have hlt := ofBytes_lt bs
  have hp : 256 ^ bs.length = 2 ^ (8 * bs.length) := by rw [Nat.pow_mul]
  rw [BitVec.toNat_ofNat, ← hp, Nat.mod_eq_of_lt hlt, toBytes_ofBytes]

end memory
