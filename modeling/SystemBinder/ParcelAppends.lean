-- Appends to a parcel over a buffer of the driver: when it takes possession of a copy, and that
-- its message is then the one that a local copy would have.
import SystemBinder.ParcelStores

open prog memory

namespace system_binder.Parcel

/-! ## The message -/

/-- A write at the end of the data. -/
inductive Append
  | int32 (val : BitVec 32)
  | blob (data : List UInt8)
  | object (val : FlatBinderObject) (nullMetaData : Bool)

namespace Append

/-- What it stores. -/
def bytes : Append → List UInt8
  | .int32 val => wordBytes 4 val
  | .blob data => padded data
  | .object val _ => val.toBytes

/-- What it asks `growData` for. -/
def asked : Append → Nat
  | .object _ _ => 8
  | o => o.bytes.length

/-- It lists an object. -/
def Lists : Append → Prop
  | .object val nullMetaData => IsListed val nullMetaData
  | _ => False

instance : ∀ o : Append, Decidable o.Lists
  | .int32 _ => isFalse id
  | .blob _ => isFalse id
  | .object val nullMetaData => inferInstanceAs (Decidable (IsListed val nullMetaData))

end Append

/-- A message: its bytes, where its objects stand, and the room it has. -/
structure Message where
  bytes : List UInt8
  objects : List Nat
  capacity : Nat
deriving DecidableEq, Repr

namespace Message

/-- The room after an append, nothing where it would be too much. -/
def room (m : Message) (o : Append) : Option Nat :=
  if m.bytes.length + o.bytes.length ≤ m.capacity then some m.capacity
  else if growthSize m.bytes.length o.asked ≤ INT32_MAX then some (growthSize m.bytes.length o.asked)
  else none

/-- The message with one more value at its end. It stays as it is where that would be too much. -/
def append (m : Message) (o : Append) : Message :=
  match m.room o with
  | none => m
  | some n =>
    { bytes := m.bytes ++ o.bytes
      objects := if o.Lists then m.objects ++ [m.bytes.length] else m.objects
      capacity := n }

end Message

/-- The message of a parcel. -/
def asMessage (p : Parcel) : Message := ⟨window p.cells 0 p.mDataSize, retained p, p.mDataCapacity⟩

/-! ## Appends -/

variable {W : Type}

def runAppend (x : Outside W) : Append → Prog (Ctx W) Fault Int
  | .int32 val => writeInt32 x val
  | .blob data => write x data
  | .object val nullMetaData => writeObject x val nullMetaData

/-- The functions outside, with a list of the buffers that were handed back. -/
def counted (x : Outside W) : Outside (W × List Nat) where
  incStrong a := zoom Prod.fst (fun w t => (w, t.2)) (x.incStrong a)
  decStrong a := zoom Prod.fst (fun w t => (w, t.2)) (x.decStrong a)
  getStrongProxyForHandle h := zoom Prod.fst (fun w t => (w, t.2)) (x.getStrongProxyForHandle h)
  close fd := zoom Prod.fst (fun w t => (w, t.2)) (x.close fd)
  freeBuffer address := do
    modify fun t => (t.1, t.2 ++ [address])
    zoom Prod.fst (fun w t => (w, t.2)) (x.freeBuffer address)

/-- There is no room for the append, and a growth for it does not ask for too much. -/
def Grows (o : Append) (p : Parcel) : Prop :=
  p.mDataCapacity < p.mDataSize + o.bytes.length ∧ growthSize p.mDataSize o.asked ≤ INT32_MAX

instance (o : Append) (p : Parcel) : Decidable (Grows o p) := by
  unfold Grows
  infer_instance

/-- A parcel that can be appended to: its memory is as it says, the position is at the end, files
are allowed, nothing went wrong, and there is memory. -/
structure Holding (c : Ctx W) : Prop where
  usable : Usable c.parcel
  pos : c.parcel.mDataPos = c.parcel.mDataSize
  objects : c.parcel.mObjectsSize ≤ c.parcel.mDataSize
  allowFds : c.parcel.mAllowFds = true
  error : c.parcel.mError = STATUS_OK
  ample : Ample c.heap

variable {x : Outside W} {c c' : Ctx (W × List Nat)} {o : Append}

/-- What an append to `c` leaves. -/
structure Appended (o : Append) (c c' : Ctx (W × List Nat)) : Prop where
  holding : Holding c'
  message : asMessage c'.parcel = (asMessage c.parcel).append o
  owner : c'.parcel.mOwner = if Grows o c.parcel then none else c.parcel.mOwner
  handedBack : c'.world.2 = c.world.2 ++
    if Grows o c.parcel ∧ c.parcel.mOwner.isSome = true then [c.parcel.address] else []
  same : c'.parcel.mOwner.isSome = true → c' = c

theorem length_message {p : Parcel} (u : Usable p) : (Parcel.asMessage p).bytes.length = p.mDataSize := by
  apply length_window
  rw [u.sound.data, Nat.zero_add]
  exact u.size

/-- At the end of a buffer of the driver there is no room. -/
theorem Holding.local_of_room (h : Holding c) {n : Nat} (h0 : 0 < n)
    (hroom : c.parcel.mDataSize + n ≤ c.parcel.mDataCapacity) : Local c.parcel := by
  rcases h.usable with l | b
  · exact l
  · have := b.full
    omega

/-! ### The calls -/

theorem counted_keeps : OutsideKeeps (counted x) fun w w' => w'.2 = w.2 where
  frame := ⟨fun _ => rfl, fun h h' => h'.trans h, fun _ _ => trivial⟩
  incStrong a := fun t => by
    unfold counted
    rw [wp_zoom]
    exact wp_of_all (fun _ _ => rfl) fun _ => trivial
  decStrong a := fun t => by
    unfold counted
    rw [wp_zoom]
    exact wp_of_all (fun _ _ => rfl) fun _ => trivial
  getStrongProxyForHandle h := fun t => by
    unfold counted
    rw [wp_zoom]
    exact wp_of_all (fun _ _ => rfl) fun _ => trivial
  close fd := fun t => by
    unfold counted
    rw [wp_zoom]
    exact wp_of_all (fun _ _ => rfl) fun _ => trivial

theorem OutsideKeeps.acquire {x : Outside W} {R : W → W → Prop} (h : OutsideKeeps x R)
    (obj : FlatBinderObject) : Keeps R (fun _ _ => True) (acquire_object x obj) := by
  unfold acquire_object
  refine .ite (.ite (h.incStrong _) (h.frame.pure _)) (.ite ?_ (h.frame.pure _))
  exact h.frame.bind (h.getStrongProxyForHandle _) fun ibinder =>
    .ite (h.incStrong ibinder) (h.frame.pure _)

theorem forEach_keeps {R : W → W → Prop} (h : Frame R fun _ (_ : Fault) => True)
    {f : FlatBinderObject → Prog W Fault Unit} (hf : ∀ obj, Keeps R (fun _ _ => True) (f obj))
    (objs : List FlatBinderObject) : Keeps R (fun _ _ => True) (forEach f objs) := by
  induction objs with
  | nil => exact h.pure _
  | cons obj rest ih => exact h.bind (hf obj) fun _ => ih

/-- Taking possession hands back exactly the buffer. -/
theorem possess_handsBack {p : Parcel} {k : Nat} {w : W × List Nat} :
    wp (possess (counted x) p k) (fun _ w' => w'.2 = w.2 ++ [p.address]) (fun _ => True) w := by
  have hkeeps := counted_keeps (x := x)
  unfold possess
  simp only [wp_bind]
  refine wp_imp (forEach_keeps hkeeps.frame (fun obj => hkeeps.acquire obj) _ w) fun _ w₁ h₁ => ?_
  have hclose : ∀ obj, Keeps (fun w w' : W × List Nat => w'.2 = w.2) (fun _ _ => True)
      (closeFile (counted x) obj) := by
    intro obj
    unfold closeFile
    exact .ite (hkeeps.close _) (hkeeps.frame.pure _)
  refine wp_imp (forEach_keeps hkeeps.frame hclose _ w₁) fun _ w₂ h₂ => ?_
  unfold counted
  simp only [wp_bind, wp_modify, wp_zoom]
  refine wp_of_all (fun _ _ => ?_) fun _ => trivial
  show w₂.2 ++ [p.address] = _
  rw [h₂, h₁]

theorem rehouse_handsBack {p : Parcel} {w : W × List Nat} :
    wp (rehouse (counted x) p) (fun _ w' => w'.2 = w.2 ++
      if p.mOwner.isSome = true then [p.address] else []) (fun _ => True) w := by
  unfold rehouse
  split
  · exact possess_handsBack
  · exact (List.append_nil _).symm

/-! ### Making room -/

theorem Rehoused.holding {n : Nat} (h : Holding c) (r : Rehoused c c' n) : Holding c' where
  usable := .inl r.isLocal
  pos := by rw [r.pos, r.size, h.pos]
  objects := by
    rw [r.objectsSize, r.size]
    exact h.objects
  allowFds := r.allowFds.trans h.allowFds
  error := r.error.trans h.error
  ample := by
    unfold Ample
    rw [r.fresh]
    exact h.ample

theorem Rehoused.message {n : Nat} (r : Rehoused c c' n) :
    Parcel.asMessage c'.parcel = { Parcel.asMessage c.parcel with capacity := n } := by
  unfold Parcel.asMessage
  rw [r.size, r.list, r.capacity, r.bytes 0 _ (by omega)]

/-- A growth moves the message to memory of the parcel's own, and hands back the buffer of the
driver, if it was in one. -/
theorem growData.holds {len : Nat} (h : Holding c) (h0 : 0 < len)
    (hfull : c.parcel.mDataCapacity < growthSize c.parcel.mDataSize len) :
    wp (growData (counted x) len) (fun r c' =>
      INT32_MAX < growthSize c.parcel.mDataSize len ∧ r = STATUS_BAD_VALUE ∧ c' = c ∨
      growthSize c.parcel.mDataSize len ≤ INT32_MAX ∧ r = STATUS_OK ∧
        Rehoused c c' (growthSize c.parcel.mDataSize len) ∧ c'.world.2 = c.world.2 ++
          if c.parcel.mOwner.isSome = true then [c.parcel.address] else []) InCall c := by
  by_cases hlong : INT32_MAX < len
  · have hgrow := le_growthSize c.parcel.mDataSize len
    unfold growData
    rw [if_pos hlong]
    exact .inl ⟨by omega, rfl, rfl⟩
  refine growData.usable h.usable h0 (Nat.le_of_not_lt hlong) hfull (fun hbig => .inl ⟨hbig, rfl, rfl⟩)
    (fun c' _ hno => absurd h.ample hno) fun hfit => ?_
  refine wp_mono rehouse_handsBack (fun _ w hw c' r hc' => .inr ⟨hfit, rfl, r, ?_⟩)
    fun e _ => ⟨e, rfl⟩
  rw [hc']
  exact hw

/-! ### Storing at the end -/

theorem Stores.message {bs : List UInt8} (h : Holding c)
    (hroom : c.parcel.mDataPos + bs.length ≤ c.parcel.mDataCapacity) (st : Stores c c' bs) :
    Parcel.asMessage c'.parcel =
      { Parcel.asMessage c.parcel with bytes := (Parcel.asMessage c.parcel).bytes ++ bs } := by
  have hsize : c'.parcel.mDataSize = c.parcel.mDataSize + bs.length := by
    rw [st.size, h.pos]
    omega
  unfold Parcel.asMessage
  rw [hsize, st.cells, h.pos, window_appended, st.capacity]
  · simp only [retained, st.table, st.objectsSize]
  · rw [h.usable.sound.data, ← h.pos]
    exact hroom

theorem Stores.holding {bs : List UInt8} (h : Holding c) (l : Local c.parcel)
    (hroom : c.parcel.mDataPos + bs.length ≤ c.parcel.mDataCapacity) (st : Stores c c' bs) :
    Holding c' where
  usable := .inl (st.isLocal l hroom)
  pos := by
    rw [st.pos, st.size, h.pos]
    omega
  objects := by
    have := h.objects
    rw [st.objectsSize, st.size]
    omega
  allowFds := by
    rw [st.parcel]
    exact h.allowFds
  error := st.error.trans h.error
  ample := by
    unfold Ample
    rw [st.heap]
    exact h.ample

/-- `c'` is `c`, which had room for the append, after it. -/
structure Put (o : Append) (c c' : Ctx (W × List Nat)) : Prop where
  holding : Holding c'
  owner : c'.parcel.mOwner = none
  message : asMessage c'.parcel =
    { bytes := (asMessage c.parcel).bytes ++ o.bytes
      objects := if o.Lists then (asMessage c.parcel).objects ++ [c.parcel.mDataSize]
        else (asMessage c.parcel).objects
      capacity := c.parcel.mDataCapacity }
  handedBack : c'.world.2 = c.world.2

theorem Stores.put (h : Holding c) (l : Local c.parcel) (hplain : ¬o.Lists)
    (hroom : c.parcel.mDataPos + o.bytes.length ≤ c.parcel.mDataCapacity)
    (st : Stores c c' o.bytes) : Put o c c' where
  holding := st.holding h l hroom
  owner := st.owner.trans l.owner
  message := by
    rw [st.message h hroom, if_neg hplain]
    rfl
  handedBack := by rw [st.world]

/-- Where there was room. -/
theorem Put.appended (h : Holding c) (l : Local c.parcel)
    (hroom : c.parcel.mDataSize + o.bytes.length ≤ c.parcel.mDataCapacity) (p : Put o c c') :
    Appended o c c' := by
  have hgrow : ¬Grows o c.parcel := fun hg => absurd hg.1 (Nat.not_lt_of_le hroom)
  have howner := l.owner
  refine ⟨p.holding, ?_, ?_, ?_, fun ho => ?_⟩
  · have hr : (Parcel.asMessage c.parcel).room o = some c.parcel.mDataCapacity := by
      unfold Message.room
      rw [length_message h.usable]
      exact if_pos hroom
    unfold Message.append
    rw [hr, p.message, length_message h.usable]
  · rw [if_neg hgrow, howner, p.owner]
  · rw [if_neg fun hg => hgrow hg.1, p.handedBack, List.append_nil]
  · rw [p.owner] at ho
    cases ho

/-- Where room was made first. -/
theorem Rehoused.appended {c₁ : Ctx (W × List Nat)} (h : Holding c) (hgrow : Grows o c.parcel)
    (r : Rehoused c c₁ (growthSize c.parcel.mDataSize o.asked))
    (hback : c₁.world.2 = c.world.2 ++
      if c.parcel.mOwner.isSome = true then [c.parcel.address] else []) (p : Put o c₁ c') :
    Appended o c c' := by
  refine ⟨p.holding, ?_, ?_, ?_, fun ho => ?_⟩
  · have hr : (Parcel.asMessage c.parcel).room o =
        some (growthSize c.parcel.mDataSize o.asked) := by
      unfold Message.room
      rw [length_message h.usable]
      exact (if_neg (Nat.not_le_of_lt hgrow.1)).trans (if_pos hgrow.2)
    unfold Message.append
    rw [hr, p.message, r.message, r.size, r.capacity, length_message h.usable]
  · rw [if_pos hgrow, p.owner]
  · rw [p.handedBack, hback]
    simp only [hgrow, true_and]
  · rw [p.owner] at ho
    cases ho

/-- Where it would be too much, or where there is nothing to store. -/
theorem Holding.unchanged (h : Holding c) (hgrow : ¬Grows o c.parcel)
    (hempty : c.parcel.mDataSize + o.bytes.length ≤ c.parcel.mDataCapacity →
      o.bytes = [] ∧ ¬o.Lists) : Appended o c c := by
  refine ⟨h, ?_, ?_, ?_, fun _ => rfl⟩
  · unfold Message.append Message.room
    rw [length_message h.usable]
    by_cases hroom : c.parcel.mDataSize + o.bytes.length ≤ c.parcel.mDataCapacity
    · obtain ⟨hnil, hplain⟩ := hempty hroom
      have hroom' : c.parcel.mDataSize + o.bytes.length ≤ (Parcel.asMessage c.parcel).capacity := hroom
      rw [if_pos hroom', hnil]
      simp only [List.append_nil, if_neg hplain]
    · have hbig : ¬growthSize c.parcel.mDataSize o.asked ≤ INT32_MAX := fun hfit =>
        hgrow ⟨Nat.lt_of_not_le hroom, hfit⟩
      have hroom' : ¬c.parcel.mDataSize + o.bytes.length ≤ (Parcel.asMessage c.parcel).capacity := hroom
      simp only [if_neg hroom', if_neg hbig]
  · rw [if_neg hgrow]
  · rw [if_neg fun hg => hgrow hg.1, List.append_nil]

/-- Where it would be too much. -/
theorem Holding.refused (h : Holding c) (hasked : o.asked = o.bytes.length)
    (hbig : TooMuch c o.bytes.length) : Appended o c c := by
  have hfull := h.pos ▸ hbig.1
  refine h.unchanged ?_ fun hroom => absurd hfull (Nat.not_lt_of_le hroom)
  rintro ⟨-, hfit⟩
  rw [hasked] at hfit
  exact absurd hbig.2 (Nat.not_lt_of_le hfit)

/-! ### The writes -/

/-- A growth calls only functions outside, which can only go wrong themselves. -/
theorem rehouse_then {n : Nat} {R : Ctx (W × List Nat) → Prop}
    (h : ∀ c₁, Rehoused c c₁ n → c₁.world.2 = c.world.2 ++
      (if c.parcel.mOwner.isSome = true then [c.parcel.address] else []) → R c₁) :
    wp (rehouse (counted x) c.parcel) (fun _ w => ∀ c₁ : Ctx (W × List Nat), c₁.world = w →
      Rehoused c c₁ n → R c₁) (fun e => InCall (.inCall e)) c.world := by
  refine wp_mono rehouse_handsBack (fun _ w hback c₁ hw r => h c₁ r ?_) fun e _ => ⟨e, rfl⟩
  rw [hw]
  exact hback

theorem writeAligned.appends (h : Holding c) (hplain : ¬o.Lists)
    (hasked : o.asked = o.bytes.length) (h0 : 0 < o.bytes.length)
    (hlen : o.bytes.length ≤ INT32_MAX) :
    wp (writeAligned (counted x) o.bytes) (fun _ c' => Appended o c c') InCall c := by
  have hgrow := le_growthSize c.parcel.mDataSize o.bytes.length
  refine writeAligned.usable h.usable h0 hlen (fun hbig => h.refused hasked hbig)
    (fun c' _ hno => absurd h.ample hno) (fun hroom c' st => ?_) fun hfull hfit => ?_
  · have l := h.local_of_room h0 (h.pos ▸ hroom)
    exact (st.put h l hplain hroom).appended h l (h.pos ▸ hroom)
  · rw [← hasked] at hfit ⊢
    refine wp_imp (rehouse_then (R := fun c₁ => ∀ c', Stores c₁ c' o.bytes → Appended o c c')
      fun c₁ r hback c' st => ?_) fun _ w hQ c₁ c' hw r => hQ c₁ hw r c'
    have h₁ := r.holding h
    have hroom : c₁.parcel.mDataPos + o.bytes.length ≤ c₁.parcel.mDataCapacity := by
      rw [h₁.pos, r.size, r.capacity, hasked]
      exact hgrow
    exact r.appended h ⟨h.pos ▸ hfull, hfit⟩ hback (st.put h₁ r.isLocal hplain hroom)

theorem write.appends {data : List UInt8} (h : Holding c) :
    wp (write (counted x) data) (fun _ c' => Appended (.blob data) c c') InCall c := by
  have s := h.usable.sound
  by_cases hnil : data = []
  · subst hnil
    refine wp_imp (write.empty s) fun _ c' ⟨_, hc'⟩ => ?_
    rw [hc']
    refine h.unchanged (fun hg => ?_) fun _ => ⟨rfl, id⟩
    exact absurd hg.1 (Nat.not_lt_of_le s.size)
  have h0 : 0 < data.length := List.length_pos_iff.mpr hnil
  have hgrow := le_growthSize c.parcel.mDataSize (padded data).length
  by_cases hlong : INT32_MAX < data.length
  · have hmore : INT32_MAX < (padded data).length := by
      unfold padded
      rw [List.length_append]
      omega
    have hcap := s.capacity
    unfold write
    rw [if_pos hlong]
    refine h.refused (o := .blob data) rfl ⟨?_, ?_⟩
    · show _ < _ + (padded data).length
      omega
    · show INT32_MAX < growthSize _ (padded data).length
      omega
  have hlen := Nat.le_of_not_lt hlong
  have hbytes : (Append.blob data).bytes.length = padSize data.length := length_padded hlen
  have hasked : (Append.blob data).asked = padSize data.length := hbytes
  have hpad := padSize_of_le hlen
  refine write.usable h.usable h0 hlen (fun hbig => ?_) (fun c' _ hno => absurd h.ample hno)
    (fun hroom c' st => ?_) fun hfull hfit => ?_
  · rw [← hbytes] at hbig
    exact h.refused (o := .blob data) rfl hbig
  · have l := h.local_of_room (by omega) (h.pos ▸ hroom)
    rw [← hbytes] at hroom
    exact (st.put (o := .blob data) h l id hroom).appended h l (h.pos ▸ hroom)
  · rw [← hasked] at hfit ⊢
    refine wp_imp (rehouse_then (R := fun c₁ => ∀ c', Stores c₁ c' (padded data) →
      Appended (.blob data) c c') fun c₁ r hback c' st => ?_) fun _ w hQ c₁ c' hw r => hQ c₁ hw r c'
    have h₁ := r.holding h
    have hroom : c₁.parcel.mDataPos + (Append.blob data).bytes.length ≤
        c₁.parcel.mDataCapacity := by
      rw [h₁.pos, r.size, r.capacity]
      exact hgrow
    rw [← hbytes] at hfull
    exact r.appended h ⟨h.pos ▸ hfull, hfit⟩ hback (st.put (o := .blob data) h₁ r.isLocal id hroom)

/-! ### Objects at the end -/

section Objects

variable {val : FlatBinderObject} {nullMetaData : Bool}

theorem Lists.isLocal {listed : Bool} (l : Local c.parcel)
    (hroom : c.parcel.mDataPos + FLAT_SIZE ≤ c.parcel.mDataCapacity)
    (hobj : listed = true → c.parcel.mObjectsSize < c.parcel.mObjectsCapacity)
    (li : Lists c c' val listed) : Local c'.parcel := by
  have hin : c.parcel.mDataPos + val.toBytes.length ≤ c.parcel.cells.length := by
    rwa [length_toBytes, l.data]
  have htable : listed = true → c.parcel.mObjectsSize + [c.parcel.mDataPos].length ≤
      c.parcel.table.length := by
    intro hl
    rw [l.table]
    exact hobj hl
  have hlen : c'.parcel.table.length = c.parcel.table.length := by
    rw [li.table]
    split
    · rename_i hl
      exact length_overlay (htable hl)
    · rfl
  have hp := li.parcel
  refine ⟨?_, ?_, ?_, ?_, ?_, ?_, ?_, ?_⟩
  · rw [hp]
    exact l.owner
  · rw [hp]
    exact Nat.le_max_right _ _
  · rw [hp]
    exact Nat.max_le.mpr ⟨l.size, hroom⟩
  · rw [hp]
    exact l.capacity
  · rw [li.cells, length_overlay hin, l.data, hp]
  · rw [hp]
    show c.parcel.mObjectsSize + _ ≤ c.parcel.mObjectsCapacity
    split
    · rename_i hl
      exact hobj hl
    · exact l.objects
  · rw [hlen, l.table, hp]
  · intro i o hi ho
    rw [hp] at hi
    have hi : i < c.parcel.mObjectsSize + (if listed = true then 1 else 0) := hi
    rw [li.table] at ho
    rw [hp]
    show o + FLAT_SIZE ≤ c.parcel.mDataCapacity
    split at ho
    · rename_i hl
      rw [if_pos hl] at hi
      rw [getElem?_overlay (htable hl)] at ho
      split at ho
      · rename_i hnew
        have h0 : i - c.parcel.mObjectsSize = 0 := by omega
        rw [h0] at ho
        cases ho
        exact hroom
      · rename_i hold
        simp only [List.length_singleton] at hold
        exact l.offsets i o (by omega) ho
    · rename_i hl
      rw [if_neg hl] at hi
      exact l.offsets i o hi ho

theorem Lists.put {listed : Bool} (h : Holding c) (l : Local c.parcel)
    (hroom : c.parcel.mDataPos + FLAT_SIZE ≤ c.parcel.mDataCapacity)
    (hl : listed = true ↔ IsListed val nullMetaData)
    (hobj : listed = true → c.parcel.mObjectsSize < c.parcel.mObjectsCapacity)
    (hw : c'.world.2 = c.world.2) (li : Lists c c' val listed) :
    Put (.object val nullMetaData) c c' := by
  have hp := li.parcel
  have hsize : c'.parcel.mDataSize = c.parcel.mDataSize + val.toBytes.length := by
    rw [hp, length_toBytes, h.pos]
    exact Nat.max_eq_right (Nat.le_add_right _ _)
  have hcells : window c'.parcel.cells 0 c'.parcel.mDataSize =
      window c.parcel.cells 0 c.parcel.mDataSize ++ val.toBytes := by
    rw [hsize, li.cells, h.pos]
    apply window_appended
    rwa [length_toBytes, l.data, ← h.pos]
  have hlist : retained c'.parcel = if listed = true then retained c.parcel ++ [c.parcel.mDataSize]
      else retained c.parcel := by
    split
    · rename_i hyes
      have htable : c.parcel.mObjectsSize + [c.parcel.mDataPos].length ≤ c.parcel.table.length := by
        rw [l.table]
        exact hobj hyes
      rw [← h.pos]
      apply retained_append
      · rw [hp]
        exact congrArg (c.parcel.mObjectsSize + ·) (if_pos hyes)
      · rw [l.table]
        exact l.objects
      · intro i hi
        rw [li.table, if_pos hyes, getElem?_overlay htable, if_neg (by omega)]
      · rw [li.table, if_pos hyes, getElem?_overlay htable, if_pos ⟨Nat.le_refl _, by simp⟩,
          Nat.sub_self]
        rfl
    · rename_i hno
      unfold retained
      rw [li.table, if_neg hno, hp]
      exact congrArg (fun n => List.take (c.parcel.mObjectsSize + n) _) (if_neg hno)
  refine ⟨⟨.inl (li.isLocal l hroom hobj), ?_, ?_, ?_, ?_, ?_⟩, ?_, ?_, hw⟩
  · rw [hsize, hp, length_toBytes, h.pos]
  · have hobjects := h.objects
    rw [hsize, hp, length_toBytes]
    show c.parcel.mObjectsSize + _ ≤ _
    unfold FLAT_SIZE
    split
    · omega
    · omega
  · rw [hp]
    exact h.allowFds
  · rw [hp]
    exact h.error
  · unfold Ample
    rw [li.heap]
    exact h.ample
  · rw [hp]
    exact l.owner
  · have hcap : c'.parcel.mDataCapacity = c.parcel.mDataCapacity := by rw [hp]
    unfold Parcel.asMessage
    rw [hcells, hlist, hcap]
    simp only [Append.Lists, hl]
    rfl

/-- `c'` is `c` with room for one more entry in the table of objects. -/
structure Widened (c c' : Ctx W) : Prop where
  holding : Holding c'
  isLocal : Local c'.parcel
  message : asMessage c'.parcel = asMessage c.parcel
  size : c'.parcel.mDataSize = c.parcel.mDataSize
  room : c'.parcel.mObjectsSize < c'.parcel.mObjectsCapacity
  world : c'.world = c.world

/-- With memory, and no more objects than bytes, the table of objects grows. -/
theorem growObjects.widens {c : Ctx W} {E : Fault → Prop} (h : Holding c) (l : Local c.parcel) :
    wp growObjects (fun r c' => r = STATUS_OK ∧ Widened c c') E c := by
  have hobjects := h.objects
  have hsize := Nat.le_trans l.size l.capacity
  have hmax : SIZE_MAX = 2 ^ 64 - 1 := rfl
  have himax : INT32_MAX = 2 ^ 31 - 1 := rfl
  have htable := l.table
  have hfirst := l.objects
  unfold growObjects
  simp only [wp_bind, wp_thisParcel]
  rw [if_neg (by omega), if_neg (by omega), if_neg (by omega)]
  unfold reallocObjects
  rw [wp_bind, wp_allocate]
  rcases hf : c.heap.fresh c.heap.requests with _ | g
  · exact absurd hf (h.ample _)
  · have hsame : ∀ i, i < c.parcel.mObjectsSize →
        (resized c.parcel.table ((c.parcel.mObjectsSize + 2) * 3 / 2) (freshWord g))[i]? =
          c.parcel.table[i]? := fun i hi => getElem?_resized _ (by omega) (by omega)
    have hlocal : Local { c.parcel with
        mObjects := some ⟨c.heap.requests, resized c.parcel.table
          ((c.parcel.mObjectsSize + 2) * 3 / 2) (freshWord g)⟩
        mObjectsCapacity := (c.parcel.mObjectsSize + 2) * 3 / 2 } :=
      l.fewer (Nat.le_refl _) rfl rfl rfl rfl rfl rfl (length_resized _ _ _) (by dsimp only; omega)
        hsame
    refine ⟨rfl, ⟨.inl hlocal, h.pos, h.objects, h.allowFds, h.error, h.ample⟩, hlocal, ?_, rfl, ?_,
      rfl⟩
    · have hlist : retained { c.parcel with
          mObjects := some ⟨c.heap.requests, resized c.parcel.table
            ((c.parcel.mObjectsSize + 2) * 3 / 2) (freshWord g)⟩
          mObjectsCapacity := (c.parcel.mObjectsSize + 2) * 3 / 2 } = retained c.parcel :=
        retained_congr rfl hsame
      unfold Parcel.asMessage
      congr 1
    · show c.parcel.mObjectsSize < (c.parcel.mObjectsSize + 2) * 3 / 2
      omega

theorem storeFlat.puts (h : Holding c) (l : Local c.parcel)
    (hroom : c.parcel.mDataPos + FLAT_SIZE ≤ c.parcel.mDataCapacity)
    (hobj : IsListed val nullMetaData → c.parcel.mObjectsSize < c.parcel.mObjectsCapacity) :
    wp (storeFlat (counted x) val nullMetaData)
      (fun _ c' => Put (.object val nullMetaData) c c') InCall c := by
  refine storeFlat.lists l.sound hroom (fun hl => ?_) (fun _ hno => ?_) (fun hl => ?_) fun hl c' li hw => ?_
  · rw [l.table]
    exact hobj hl
  · rw [h.allowFds] at hno
    cases hno
  · refine wp_mono (counted_keeps.acquire val _) (fun _ w hkept c' li hw => ?_) fun e _ => ⟨e, rfl⟩
    exact li.put h l hroom (iff_of_true rfl hl) (fun _ => hobj hl) (by rw [hw, hkept])
  · exact li.put h l hroom (iff_of_false Bool.false_ne_true hl) (fun hyes => absurd hyes
      Bool.false_ne_true) (by rw [hw])

theorem listWithRoom.puts {enough : Bool} (h : Holding c) (l : Local c.parcel)
    (hroom : c.parcel.mDataPos + FLAT_SIZE ≤ c.parcel.mDataCapacity)
    (henough : enough = true → IsListed val nullMetaData →
      c.parcel.mObjectsSize < c.parcel.mObjectsCapacity) :
    wp (listWithRoom (counted x) enough val nullMetaData)
      (fun _ c' => Put (.object val nullMetaData) c c') InCall c := by
  unfold listWithRoom
  rw [wp_ite]
  refine ⟨fun hyes => storeFlat.puts h l hroom (henough hyes), fun _ => ?_⟩
  rw [wp_bind]
  refine wp_imp (growObjects.widens h l) fun r c₁ ⟨hr, wide⟩ => ?_
  rw [if_pos hr]
  have hcap : c₁.parcel.mDataCapacity = c.parcel.mDataCapacity := congrArg Message.capacity wide.message
  have hroom₁ : c₁.parcel.mDataPos + FLAT_SIZE ≤ c₁.parcel.mDataCapacity := by
    rw [wide.holding.pos, wide.size, hcap, ← h.pos]
    exact hroom
  refine wp_imp (storeFlat.puts wide.holding wide.isLocal hroom₁ fun _ => wide.room) fun _ c' put => ?_
  refine ⟨put.holding, put.owner, ?_, by rw [put.handedBack, wide.world]⟩
  rw [put.message, wide.message, wide.size, hcap]

/-- A listed object must not be the first to grow a parcel whose table of objects has room, as the
table is gone then. That it has room means that its objects were rejected. -/
def CanList : Append → Parcel → Prop
  | .object val nullMetaData, p => IsListed val nullMetaData → p.mOwner.isSome = true →
      p.mObjectsSize < p.mObjectsCapacity → INT32_MAX < growthSize p.mDataSize 8
  | _, _ => True

instance : ∀ (o : Append) (p : Parcel), Decidable (CanList o p)
  | .int32 _, _ => isTrue trivial
  | .blob _, _ => isTrue trivial
  | .object val nullMetaData, p => inferInstanceAs (Decidable (IsListed val nullMetaData →
      p.mOwner.isSome = true → p.mObjectsSize < p.mObjectsCapacity →
      INT32_MAX < growthSize p.mDataSize 8))

theorem writeObject.appends (h : Holding c) (hcan : CanList (.object val nullMetaData) c.parcel) :
    wp (writeObject (counted x) val nullMetaData)
      (fun _ c' => Appended (.object val nullMetaData) c c') InCall c := by
  have s := h.usable.sound
  have hsz := s.sz_pos (n := FLAT_SIZE) (by decide)
  have hgrow := flat_le_growthSize c.parcel.mDataSize
  have hbytes : (Append.object val nullMetaData).bytes.length = FLAT_SIZE := length_toBytes val
  rw [h.pos] at hsz
  unfold writeObject
  simp only [wp_bind, wp_thisParcel, h.pos, hsz, wp_ite, wp_pure]
  refine ⟨fun hroom => ?_, fun hfull => ?_⟩
  · have l := h.local_of_room (n := FLAT_SIZE) (by decide) hroom
    have hroom' := h.pos ▸ hroom
    refine wp_imp (listWithRoom.puts h l hroom' fun henough _ => of_decide_eq_true henough)
      fun _ c' put => ?_
    exact put.appended h l (by rwa [hbytes])
  · have hfull := Nat.lt_of_not_le hfull
    refine wp_imp (growData.holds h (by decide) (by omega)) ?_
    rintro r c₁ (⟨hbig, rfl, rfl⟩ | ⟨hfit, rfl, moved, hback⟩)
    · refine ⟨fun he => absurd he (by decide), fun _ => h.unchanged ?_ fun hroom => ?_⟩
      · rintro ⟨-, hfit : growthSize c₁.parcel.mDataSize 8 ≤ INT32_MAX⟩
        omega
      · rw [hbytes] at hroom
        omega
    · refine ⟨fun _ => ?_, fun hne => absurd rfl hne⟩
      have h₁ := moved.holding h
      have hroom : c₁.parcel.mDataPos + FLAT_SIZE ≤ c₁.parcel.mDataCapacity := by
        rw [h₁.pos, moved.size, moved.capacity]
        exact hgrow
      refine wp_imp (listWithRoom.puts h₁ moved.isLocal hroom fun henough hl => ?_) fun _ c' put =>
        moved.appended h ⟨by rwa [hbytes], hfit⟩ hback put
      -- the room was there before the growth
      have hlt := of_decide_eq_true henough
      rw [moved.objectsSize, moved.objectsCapacity]
      split
      · rename_i ho
        exact absurd (hcan hl ho hlt) (Nat.not_lt_of_le hfit)
      · exact hlt

end Objects

theorem runAppend.appends (h : Holding c) (hcan : CanList o c.parcel) :
    wp (runAppend (counted x) o) (fun _ c' => Appended o c c') InCall c := by
  cases o with
  | int32 val =>
    have hlen : (Append.int32 val).bytes.length = 4 := length_wordBytes 4 val
    have hfit : (Append.int32 val).bytes.length ≤ INT32_MAX := hlen ▸ by decide
    exact writeAligned.appends (o := .int32 val) h id rfl (by omega) hfit
  | blob data => exact write.appends h
  | object val nullMetaData => exact writeObject.appends h hcan

end system_binder.Parcel
