-- Two parcels that the same writes built over different memory: what a peer gets of them is the
-- same, since no write leaves a byte in the message as it found it.
import SystemBinder.ParcelSpace
import SystemBinder.TwoRuns

open prog memory

namespace system_binder.Parcel

variable {W : Type} {x : Outside W} {c d c' d' : Ctx W} {S T : Nat → Prop}

/-! ## Twins -/

/-- Both allocators find memory for the same requests to come, and whatever they find there. -/
def SameGrants (h k : Heap) : Prop :=
  ∀ n, (h.fresh (h.requests + n)).isSome = (k.fresh (k.requests + n)).isSome

/-- A parcel without its memory. -/
def bare (p : Parcel) : Parcel := { p with mData := none, mObjects := none }

/-- Two parcels with the same bytes in `S` and the same objects, over different memory. -/
structure Twins (S : Nat → Prop) (c d : Ctx W) : Prop where
  left : Local c.parcel
  right : Local d.parcel
  bare : bare c.parcel = bare d.parcel
  place : c.parcel.mData.isSome = d.parcel.mData.isSome
  bytes : ∀ i, S i → c.parcel.cells[i]? = d.parcel.cells[i]?
  offsets : ∀ i, i < c.parcel.mObjectsSize → c.parcel.table[i]? = d.parcel.table[i]?
  world : c.world = d.world
  grants : SameGrants c.heap d.heap

/-- Two parcels with the same message, at its end. -/
structure Paired (c d : Ctx W) : Prop extends Twins (fun i => i < c.parcel.mDataSize) c d where
  ends : c.parcel.mDataPos = c.parcel.mDataSize

namespace Twins

/-- They differ in no field but those for memory. -/
theorem field {β : Type} (h : Twins S c d) (f : Parcel → β) (hf : ∀ p, f (Parcel.bare p) = f p) :
    f d.parcel = f c.parcel := by
  rw [← hf, ← hf c.parcel, h.bare]

theorem pos (h : Twins S c d) : d.parcel.mDataPos = c.parcel.mDataPos :=
  h.field Parcel.mDataPos fun _ => rfl

theorem size (h : Twins S c d) : d.parcel.mDataSize = c.parcel.mDataSize :=
  h.field Parcel.mDataSize fun _ => rfl

theorem capacity (h : Twins S c d) : d.parcel.mDataCapacity = c.parcel.mDataCapacity :=
  h.field Parcel.mDataCapacity fun _ => rfl

theorem error (h : Twins S c d) : d.parcel.mError = c.parcel.mError :=
  h.field Parcel.mError fun _ => rfl

theorem objectsSize (h : Twins S c d) : d.parcel.mObjectsSize = c.parcel.mObjectsSize :=
  h.field Parcel.mObjectsSize fun _ => rfl

theorem objectsCapacity (h : Twins S c d) :
    d.parcel.mObjectsCapacity = c.parcel.mObjectsCapacity :=
  h.field Parcel.mObjectsCapacity fun _ => rfl

theorem allowFds (h : Twins S c d) : d.parcel.mAllowFds = c.parcel.mAllowFds :=
  h.field Parcel.mAllowFds fun _ => rfl

theorem place_eq (h : Twins S c d) (pos : Nat) : d.parcel.place pos = c.parcel.place pos := by
  have hplace := h.place
  unfold Parcel.place
  rcases hc : c.parcel.mData with _ | b <;> rcases hd : d.parcel.mData with _ | b'
  · rfl
  · simp [hc, hd] at hplace
  · simp [hc, hd] at hplace
  · rfl

theorem mono (h : Twins S c d) (hT : ∀ i, T i → S i) : Twins T c d :=
  { h with bytes := fun i hi => h.bytes i (hT i hi) }

/-- The position moves on in both. -/
theorem advance {n : Nat} (h : Twins S c d)
    (hroom : c.parcel.mDataPos + n ≤ c.parcel.mDataCapacity) :
    Twins S (c.mapParcel (Parcel.advance n)) (d.mapParcel (Parcel.advance n)) where
  left := h.left.advance hroom
  right := h.right.advance (by rwa [h.pos, h.capacity])
  bare := congrArg (Parcel.advance n) h.bare
  place := h.place
  bytes := h.bytes
  offsets := h.offsets
  world := h.world
  grants := h.grants

/-- After a store in each, they agree on what was the same in the two stores, and on what they
agreed on elsewhere. -/
theorem stored {q : Nat} {xs ys : List UInt8} (h : Twins S c d) (hlen : xs.length = ys.length)
    (hin : q + xs.length ≤ c.parcel.mDataCapacity)
    (hT : ∀ i, T i → (q ≤ i ∧ i < q + xs.length → xs[i - q]? = ys[i - q]?) ∧
      (¬(q ≤ i ∧ i < q + xs.length) → S i)) :
    Twins T (c.mapParcel fun p => p.stored q xs) (d.mapParcel fun p => p.stored q ys) where
  left := h.left.stored hin
  right := h.right.stored (by rwa [← hlen, h.capacity])
  bare := h.bare
  place := by
    have hplace := h.place
    simp only [Ctx.parcel_mapParcel, Parcel.stored, Option.isSome_map]
    exact hplace
  bytes := by
    intro i hi
    have hl : q + xs.length ≤ c.parcel.cells.length := by rwa [h.left.data]
    have hr : q + ys.length ≤ d.parcel.cells.length := by
      rwa [h.right.data, h.capacity, ← hlen]
    simp only [Ctx.parcel_mapParcel]
    rw [cells_stored hl, cells_stored hr, getElem?_overlay hl, getElem?_overlay hr, ← hlen]
    split
    · exact (hT i hi).1 ‹_›
    · exact h.bytes i ((hT i hi).2 ‹_›)
  offsets := h.offsets
  world := h.world
  grants := h.grants

end Twins

theorem SameGrants.next {h k h' k' : Heap} (hs : SameGrants h k) (hf : h'.fresh = h.fresh)
    (hr : h'.requests = h.requests + 1) (kf : k'.fresh = k.fresh)
    (kr : k'.requests = k.requests + 1) : SameGrants h' k' := by
  intro n
  rw [hf, hr, kf, kr, Nat.add_assoc, Nat.add_assoc, Nat.add_comm 1 n]
  exact hs (n + 1)

theorem grownHeap_requests (p : Parcel) (n : Nat) (h : Heap) :
    (grownHeap p n h).requests = h.requests + 1 := by
  unfold grownHeap
  split <;> rfl

namespace Twins

theorem starved (h : Twins S c d) : Twins S (Parcel.starved c) (Parcel.starved d) where
  left := (starved_kept h.left).isLocal
  right := (starved_kept h.right).isLocal
  bare := congrArg (fun p => { p with mError := STATUS_NO_MEMORY }) h.bare
  place := h.place
  bytes := h.bytes
  offsets := h.offsets
  world := h.world
  grants := h.grants.next rfl rfl rfl rfl

/-- A growth takes the bytes along that were inside. -/
theorem grown {n : Nat} (h : Twins S c d) (g g' : Nat → Nat) (hn : n ≤ INT32_MAX)
    (hcap : c.parcel.mDataCapacity ≤ n) (hS : ∀ i, S i → i < c.parcel.mDataCapacity) :
    Twins S (Parcel.grown c n g) (Parcel.grown d n g') where
  left := (grown_kept h.left g hn hcap).isLocal
  right := (grown_kept h.right g' hn (by rwa [h.capacity])).isLocal
  bare := congrArg (fun p => { p with mDataCapacity := n }) h.bare
  place := rfl
  bytes := by
    intro i hi
    have hlt := hS i hi
    have hl : i < c.parcel.cells.length := by rwa [h.left.data]
    have hr : i < d.parcel.cells.length := by rwa [h.right.data, h.capacity]
    have hbytes := h.bytes i hi
    simp only [Parcel.grown, Ctx.parcel_mapParcel, Ctx.parcel_mapHeap, cells_widened]
    rw [getElem?_resized _ hl (by omega), getElem?_resized _ hr (by omega), hbytes]
  offsets := h.offsets
  world := h.world
  grants := h.grants.next (grownHeap_fresh _ _ _) (grownHeap_requests _ _ _)
    (grownHeap_fresh _ _ _) (grownHeap_requests _ _ _)

end Twins

/-! ## Words -/

section Rules

variable {Q : Unit → Ctx W → Unit → Ctx W → Prop}

@[simp] theorem both_thisParcel {Q : Parcel → Ctx W → Parcel → Ctx W → Prop} :
    both thisParcel thisParcel Q c d ↔ Q c.parcel c d.parcel d := Iff.rfl

@[simp] theorem both_update {f g : Parcel → Parcel} :
    both (update f) (update g) Q c d ↔ Q () (c.mapParcel f) () (d.mapParcel g) := Iff.rfl

theorem both_loadData {Q : List UInt8 → Ctx W → List UInt8 → Ctx W → Prop} {q n : Nat}
    (hl : q + n ≤ c.parcel.cells.length) (hr : q + n ≤ d.parcel.cells.length) :
    both (loadData q n) (loadData q n) Q c d ↔
      Q (window c.parcel.cells q n) c (window d.parcel.cells q n) d := by
  rw [both_iff_wp, wp_loadData hl, wp_loadData hr]

theorem both_storeData {q : Nat} {xs ys : List UInt8} (hl : q + xs.length ≤ c.parcel.cells.length)
    (hr : q + ys.length ≤ d.parcel.cells.length) :
    both (storeData q xs) (storeData q ys) Q c d ↔
      Q () (c.mapParcel fun p => p.stored q xs) () (d.mapParcel fun p => p.stored q ys) := by
  rw [both_iff_wp, wp_storeData hl, wp_storeData hr]

theorem both_finishWrite {Q : Int → Ctx W → Int → Ctx W → Prop} {n : Nat}
    (hl : c.parcel.mDataPos + n ≤ INT32_MAX) (hr : d.parcel.mDataPos + n ≤ INT32_MAX) :
    both (finishWrite n) (finishWrite n) Q c d ↔
      Q STATUS_OK (c.mapParcel (advance n)) STATUS_OK (d.mapParcel (advance n)) := by
  rw [both_iff_wp, finishWrite.spec hl, finishWrite.spec hr]

end Rules

/-- Two runs of one program leave paired parcels paired. -/
abbrev KeepsPaired {α : Type} (m : Prog (Ctx W) Fault α) : Prop := Keeps₂ Paired m m

/-- After a growth in both: one result, and everything is still there. -/
structure GrownAlike (S : Nat → Prop) (c : Ctx W) (n : Nat) (r : Int) (c' : Ctx W) (r' : Int)
    (d' : Ctx W) : Prop where
  same : r = r'
  twins : Twins S c' d'
  pos : c'.parcel.mDataPos = c.parcel.mDataPos
  size : c'.parcel.mDataSize = c.parcel.mDataSize
  objectsSize : c'.parcel.mObjectsSize = c.parcel.mObjectsSize
  objectsCapacity : c'.parcel.mObjectsCapacity = c.parcel.mObjectsCapacity
  room : r = STATUS_OK → n ≤ c'.parcel.mDataCapacity

theorem growData.twins {len : Nat} (h : Twins S c d) (hS : ∀ i, S i → i < c.parcel.mDataCapacity)
    (h0 : 0 < len) (hlen : len ≤ INT32_MAX)
    (hcap : c.parcel.mDataCapacity < growthSize c.parcel.mDataSize len) :
    both (growData x len) (growData x len)
      (GrownAlike S c (growthSize c.parcel.mDataSize len)) c d := by
  have hgrants := h.grants 0
  rw [Nat.add_zero, Nat.add_zero] at hgrants
  rw [both_iff_wp, growData.spec h.left.sound h.left.owner h0 hlen hcap]
  simp only [growData.spec h.right.sound h.right.owner h0 hlen (by rwa [h.capacity, h.size]), h.size]
  split
  · exact ⟨rfl, h, rfl, rfl, rfl, rfl, fun hok => by cases hok⟩
  · rename_i hfit
    rcases hc : c.heap.fresh c.heap.requests with _ | g <;>
      rcases hd : d.heap.fresh d.heap.requests with _ | g'
    · exact ⟨rfl, h.starved, rfl, rfl, rfl, rfl, fun hok => by cases hok⟩
    · simp [hc, hd] at hgrants
    · simp [hc, hd] at hgrants
    · exact ⟨rfl, h.grown g g' (Nat.le_of_not_lt hfit) (Nat.le_of_lt hcap) hS, rfl, rfl,
        rfl, rfl, fun _ => le_rfl⟩

theorem Twins.lt_capacity (h : Twins (fun i => i < c.parcel.mDataSize) c d) :
    ∀ i, i < c.parcel.mDataSize → i < c.parcel.mDataCapacity :=
  fun _ hi => Nat.lt_of_lt_of_le hi h.left.size

/-- What was written at the end belongs to the message. -/
theorem Paired.advanced {n : Nat} (ends : c.parcel.mDataPos = c.parcel.mDataSize)
    (hroom : c.parcel.mDataPos + n ≤ c.parcel.mDataCapacity)
    (h : Twins (fun i => i < c.parcel.mDataPos + n) c d) :
    Paired (c.mapParcel (advance n)) (d.mapParcel (advance n)) := by
  have hpos : (c.mapParcel (advance n)).parcel.mDataPos = c.parcel.mDataPos + n :=
    h.left.sz_pos hroom
  have hsize : (c.mapParcel (advance n)).parcel.mDataSize =
      max c.parcel.mDataSize (c.parcel.mDataPos + n) :=
    congrArg (max c.parcel.mDataSize) (h.left.sz_pos hroom)
  exact ⟨(h.advance hroom).mono fun i hi => by omega, by omega⟩

theorem storeAligned.paired {bs : List UInt8} (h : Paired c d)
    (hroom : c.parcel.mDataPos + bs.length ≤ c.parcel.mDataCapacity) :
    both (storeAligned bs) (storeAligned bs) (fun r c' r' d' => r = r' ∧ Paired c' d') c d := by
  have hends := h.ends
  have hfin : c.parcel.mDataPos + bs.length ≤ INT32_MAX := Nat.le_trans hroom h.left.capacity
  have hl : c.parcel.mDataPos + bs.length ≤ c.parcel.cells.length := by rwa [h.left.data]
  have hr : c.parcel.mDataPos + bs.length ≤ d.parcel.cells.length := by
    rwa [h.right.data, h.capacity]
  have hstored : Twins (fun i => i < c.parcel.mDataPos + bs.length)
      (c.mapParcel fun p => p.stored c.parcel.mDataPos bs)
      (d.mapParcel fun p => p.stored c.parcel.mDataPos bs) :=
    h.stored rfl hroom fun i hi => ⟨fun _ => rfl, fun hno => by omega⟩
  unfold storeAligned
  refine both_bind (both_thisParcel.mpr ?_)
  rw [h.pos]
  refine both_bind ((both_storeData hl hr).mpr ?_)
  refine (both_finishWrite ?_ ?_).mpr ?_
  · exact hfin
  · rw [Ctx.parcel_mapParcel]
    exact h.pos ▸ hfin
  · exact ⟨rfl, .advanced hends hroom hstored⟩

theorem Paired.of_twins (h : Paired c d) {c' d' : Ctx W}
    (t : Twins (fun i => i < c.parcel.mDataSize) c' d')
    (hpos : c'.parcel.mDataPos = c.parcel.mDataPos)
    (hsize : c'.parcel.mDataSize = c.parcel.mDataSize) : Paired c' d' where
  toTwins := t.mono fun i hi => by omega
  ends := by rw [hpos, hsize, h.ends]

theorem Paired.sz_pos (h : Paired c d) {n : Nat} (hn : n ≤ 2 ^ 32) :
    sz (c.parcel.mDataPos + n) = c.parcel.mDataPos + n := by
  have h1 := h.left.pos
  have h2 := h.left.size
  have h3 := h.left.capacity
  apply sz_of_le
  unfold INT32_MAX at h3
  unfold SIZE_MAX
  omega

theorem writeAligned.paired {bs : List UInt8} (h0 : 0 < bs.length) (hlen : bs.length ≤ INT32_MAX) :
    KeepsPaired (writeAligned x bs : Prog (Ctx W) Fault Int) := by
  intro c d h
  have hends := h.ends
  have hsz := h.sz_pos (n := bs.length) (Nat.le_trans hlen (by decide))
  have hgrow := le_growthSize c.parcel.mDataSize bs.length
  unfold writeAligned
  refine both_bind (both_thisParcel.mpr ?_)
  rw [h.pos, h.capacity, hsz]
  refine both_ite (storeAligned.paired h) fun hfull => ?_
  refine both_bind (both_mono
    (growData.twins h.toTwins h.lt_capacity h0 hlen (by omega)) ?_)
  rintro r c' r' d' ⟨rfl, t, hpos, hsize, -, -, hroom⟩
  have h' := h.of_twins t hpos hsize
  refine both_ite (fun hok => storeAligned.paired h' ?_) fun _ => ⟨rfl, h'⟩
  have hcap := hroom hok
  omega

/-! ## Blobs and strings -/

/-- After the room for `len` bytes was claimed at the end: the padding is the same in both, and
the bytes to come are not yet. -/
structure Claimed (c : Ctx W) (len : Nat) (o : Option Nat) (c' : Ctx W) (o' : Option Nat)
    (d' : Ctx W) : Prop where
  same : o = o'
  place : o = some c.parcel.mDataPos ∨ o = none ∧ len = 0
  twins : Twins (fun i => i < c.parcel.mDataPos ∨
    c.parcel.mDataPos + len ≤ i ∧ i < c.parcel.mDataPos + padSize len) c' d'
  pos : c'.parcel.mDataPos = c.parcel.mDataPos + padSize len
  ends : c'.parcel.mDataPos = c'.parcel.mDataSize

theorem claimInplace.paired {len : Nat} (h : Paired c d) (hlen : len ≤ INT32_MAX)
    (hroom : c.parcel.mDataPos + padSize len ≤ c.parcel.mDataCapacity) :
    both (claimInplace len) (claimInplace len) (Claimed c len) c d := by
  have hends := h.ends
  have hpad := padSize_of_le hlen
  have hfin : c.parcel.mDataPos + padSize len ≤ INT32_MAX := Nat.le_trans hroom h.left.capacity
  have hfin' : d.parcel.mDataPos + padSize len ≤ INT32_MAX := by rwa [h.pos]
  have hplace : c.parcel.place c.parcel.mDataPos = some c.parcel.mDataPos ∨
      c.parcel.place c.parcel.mDataPos = none ∧ len = 0 := by
    rcases hp : c.parcel.place c.parcel.mDataPos with _ | q
    · refine .inr ⟨rfl, ?_⟩
      by_contra hne
      rw [h.left.place_eq (by omega)] at hp
      cases hp
    · obtain ⟨b, -, hb⟩ := Option.map_eq_some_iff.mp hp
      exact .inl (congrArg some hb.symm)
  -- after the padding is clear in both, the position moves
  have hfinish : ∀ c₁ d₁ : Ctx W, Twins (fun i => i < c.parcel.mDataPos ∨
      c.parcel.mDataPos + len ≤ i ∧ i < c.parcel.mDataPos + padSize len) c₁ d₁ →
      c₁.parcel.mDataPos = c.parcel.mDataPos → c₁.parcel.mDataSize = c.parcel.mDataSize →
      c₁.parcel.mDataCapacity = c.parcel.mDataCapacity →
      both (do
          let _ ← finishWrite (padSize len)
          pure (c.parcel.place c.parcel.mDataPos))
        (do
          let _ ← finishWrite (padSize len)
          pure (c.parcel.place c.parcel.mDataPos)) (Claimed c len) c₁ d₁ := by
    intro c₁ d₁ t hp hs hcap
    have hroom₁ : c₁.parcel.mDataPos + padSize len ≤ c₁.parcel.mDataCapacity := by
      rwa [hp, hcap]
    have hpos : (c₁.mapParcel (advance (padSize len))).parcel.mDataPos =
        c₁.parcel.mDataPos + padSize len := t.left.sz_pos hroom₁
    have hsize : (c₁.mapParcel (advance (padSize len))).parcel.mDataSize =
        max c₁.parcel.mDataSize (c₁.parcel.mDataPos + padSize len) :=
      congrArg (max c₁.parcel.mDataSize) (t.left.sz_pos hroom₁)
    refine both_bind ((both_finishWrite (by rwa [hp]) (by rwa [t.pos, hp])).mpr ?_)
    exact ⟨rfl, hplace, t.advance hroom₁, by omega, by omega⟩
  unfold claimInplace
  refine both_bind (both_thisParcel.mpr ?_)
  rw [h.place_eq, h.pos]
  refine both_ite (fun hne => ?_) fun heq => ?_
  · have hl : c.parcel.mDataPos + padSize len - 4 + 4 ≤ c.parcel.cells.length := by
      rw [h.left.data]
      omega
    have hr : c.parcel.mDataPos + padSize len - 4 + 4 ≤ d.parcel.cells.length := by
      rw [h.right.data, h.capacity]
      omega
    refine both_bind ((both_loadData hl hr).mpr ?_)
    refine both_bind ((both_storeData (by rwa [length_wordBytes])
      (by rwa [length_wordBytes])).mpr ?_)
    refine hfinish _ _ ?_ rfl rfl rfl
    refine h.stored (by simp) (by rw [length_wordBytes]; omega) fun i hi => ?_
    rw [length_wordBytes]
    refine ⟨fun hin => ?_, fun hout => by omega⟩
    rw [padding_zero _ (by omega) (by omega) (by omega) (by omega),
      padding_zero _ (by omega) (by omega) (by omega) (by omega)]
  · exact hfinish _ _ (h.mono fun i hi => by omega) rfl rfl rfl

/-- The place for `len` bytes in both, or in neither. -/
theorem writeInplace.paired {len : Nat} (h : Paired c d) :
    both (writeInplace x len) (writeInplace x len) (fun o c' o' d' =>
      Claimed c len o c' o' d' ∨ (o = none ∧ o' = none ∧ Paired c' d')) c d := by
  have hends := h.ends
  have hin := h.left.size
  unfold writeInplace
  refine both_ite (fun _ => .inr ⟨rfl, rfl, h⟩) fun hbig => ?_
  have hlen : len ≤ INT32_MAX := Nat.le_of_not_lt hbig
  have hpad := padSize_of_le hlen
  have himax : INT32_MAX = 2 ^ 31 - 1 := rfl
  have hsz := h.sz_pos (n := padSize len) (by omega)
  have hgrow := le_growthSize c.parcel.mDataSize (padSize len)
  refine both_bind (both_thisParcel.mpr ?_)
  dsimp only
  rw [h.pos, h.capacity, hsz]
  refine both_ite (fun hwrap => absurd hwrap (by omega)) fun _ => ?_
  refine both_ite (fun hroom => both_mono (claimInplace.paired h hlen hroom) fun _ _ _ _ => .inl)
    fun hfull => ?_
  by_cases hpbig : INT32_MAX < padSize len
  · -- so much more is not even asked for
    have hgrowth {e : Ctx W} : growData x (padSize len) e = .ok (STATUS_BAD_VALUE, e) := by
      unfold growData
      rw [if_pos hpbig]
      rfl
    refine both_bind ?_
    unfold both
    rw [hgrowth, hgrowth]
    exact .inr ⟨rfl, rfl, h⟩
  · refine both_bind (both_mono (growData.twins h.toTwins h.lt_capacity (by omega)
      (Nat.le_of_not_lt hpbig) (by omega)) ?_)
    rintro r c' r' d' ⟨rfl, t, hpos, hsize, -, -, hroom⟩
    have h' := h.of_twins t hpos hsize
    refine both_ite (fun hok => ?_) fun _ => .inr ⟨rfl, rfl, h'⟩
    have hcap := hroom hok
    refine both_mono (claimInplace.paired h' hlen (by omega)) ?_
    rintro o c₂ o' d₂ ⟨hsame, hplace, htwins, hpos₂, hends₂⟩
    rw [hpos] at hplace htwins hpos₂
    exact .inl ⟨hsame, hplace, htwins, hpos₂, hends₂⟩

/-- The bytes to come are stored in both. -/
theorem Claimed.filled {len : Nat} {o o' : Option Nat} {bs : List UInt8}
    (h : Claimed c len o c' o' d') (hbs : bs.length = len) (hpad : len ≤ padSize len) :
    Paired (c'.mapParcel fun p => p.stored c.parcel.mDataPos bs)
      (d'.mapParcel fun p => p.stored c.parcel.mDataPos bs) where
  toTwins := by
    have hpos := h.pos
    have hends := h.ends
    have hp := h.twins.left.pos
    have hs := h.twins.left.size
    refine h.twins.stored rfl (by omega) fun i hi => ⟨fun _ => rfl, fun hout => ?_⟩
    have hi' : i < c'.parcel.mDataSize := hi
    omega
  ends := h.ends

/-- Where no byte is to come, the message is whole. -/
theorem Claimed.whole {len : Nat} {o o' : Option Nat} (h : Claimed c len o c' o' d')
    (h0 : len = 0) : Paired c' d' where
  toTwins := by
    have hpos := h.pos
    have hends := h.ends
    refine h.twins.mono fun i hi => ?_
    omega
  ends := h.ends

theorem le_padSize {n : Nat} (h : n ≤ INT32_MAX) : n ≤ padSize n := by
  rw [padSize_of_le h]
  omega

/-- Both run a store inside the place they claimed. -/
theorem Claimed.store {len q : Nat} {o o' : Option Nat} {bs : List UInt8}
    {Q : Unit → Ctx W → Unit → Ctx W → Prop} (h : Claimed c len o c' o' d')
    (hq : q + bs.length ≤ c'.parcel.mDataPos)
    (hQ : Q () (c'.mapParcel fun p => p.stored q bs) () (d'.mapParcel fun p => p.stored q bs)) :
    both (storeData q bs) (storeData q bs) Q c' d' := by
  have hp := h.twins.left.pos
  have hs := h.twins.left.size
  refine (both_storeData ?_ ?_).mpr hQ
  · rw [h.twins.left.data]
    omega
  · rw [h.twins.right.data, h.twins.capacity]
    omega

theorem write.paired (data : List UInt8) : KeepsPaired (write x data) := by
  intro c d h
  unfold write
  refine both_ite (fun _ => ⟨rfl, h⟩) fun hbig => ?_
  have hpad := le_padSize (Nat.le_of_not_lt hbig)
  refine both_bind (both_mono (writeInplace.paired h) ?_)
  rintro o c' o' d' (hc | ⟨rfl, rfl, h'⟩)
  · obtain rfl := hc.same
    rcases hc.place with rfl | ⟨rfl, h0⟩
    · refine both_bind (hc.store (by rw [hc.pos]; omega) ?_)
      exact ⟨rfl, hc.filled rfl hpad⟩
    · -- an empty blob in a parcel without memory
      refine both_bind (both_thisParcel.mpr ?_)
      exact ⟨hc.twins.error.symm, hc.whole h0⟩
  · refine both_bind (both_thisParcel.mpr ?_)
    exact ⟨h'.error.symm, h'⟩

theorem writeInt32.paired (val : BitVec 32) : KeepsPaired (writeInt32 x val) :=
  writeAligned.paired (by simp) (by simp [INT32_MAX])

theorem writePointer.paired (val : BitVec 64) : KeepsPaired (writePointer x val) :=
  writeAligned.paired (by simp) (by simp [INT32_MAX])

/-- A string that carries a text is written like the text with its NUL. -/
theorem writeString16.paired {str : Option BinderString}
    (hstr : ∀ s, str = some s → ∃ text, s.Carries text) : KeepsPaired (writeString16 x str) := by
  rcases str with _ | str
  · exact writeInt32.paired _
  obtain ⟨text, ht⟩ := hstr str rfl
  have hlen : text.length ≤ 64 := ht.fits
  have hsz : sz (text.length + 1) = text.length + 1 := by
    apply sz_of_le
    unfold SIZE_MAX
    omega
  have hpad : text.length + 1 ≤ padSize (text.length + 1) :=
    le_padSize (by unfold INT32_MAX; omega)
  unfold writeString16
  dsimp only
  rw [ht.size, hsz]
  refine (writeInt32.paired _).bind fun err => ?_
  intro c d h
  refine both_ite (fun _ => ?_) fun _ => ⟨rfl, h⟩
  refine both_bind (both_mono (writeInplace.paired h) ?_)
  rintro o c' o' d' (hc | ⟨rfl, rfl, h'⟩)
  · obtain rfl := hc.same
    rcases hc.place with rfl | ⟨-, h0⟩
    · have hcopy : (str.copyTo text.length : Prog (Ctx W) Fault _) = pure text := by
        unfold BinderString.copyTo
        rw [if_pos ht.fits, ht.bytes]
      dsimp only
      rw [hcopy, pure_bind]
      have hpos := hc.pos
      have hends := hc.ends
      have hp := hc.twins.left.pos
      have hs := hc.twins.left.size
      refine both_bind (hc.store (by omega) ?_)
      -- only the NUL is still to come
      have t₁ : Twins (fun i => i < c.parcel.mDataPos + text.length ∨
          c.parcel.mDataPos + text.length + 1 ≤ i ∧ i < c'.parcel.mDataSize)
          (c'.mapParcel fun p => p.stored c.parcel.mDataPos text)
          (d'.mapParcel fun p => p.stored c.parcel.mDataPos text) :=
        hc.twins.stored rfl (by omega) fun i hi => ⟨fun _ => rfl, fun hout => by omega⟩
      have hcap := t₁.capacity
      refine both_bind ((both_storeData ?_ ?_).mpr ⟨rfl, ?_, hends⟩)
      · rw [t₁.left.data]
        exact Nat.le_trans (by rw [List.length_singleton]; omega) hs
      · rw [t₁.right.data, hcap]
        exact Nat.le_trans (by rw [List.length_singleton]; omega) hs
      · refine t₁.stored rfl (Nat.le_trans (by rw [List.length_singleton]; omega) hs) ?_
        intro i hi
        have hi' : i < c'.parcel.mDataSize := hi
        rw [List.length_singleton]
        exact ⟨fun _ => rfl, fun hout => by omega⟩
    · cases h0
  · refine both_bind (both_thisParcel.mpr ?_)
    exact ⟨h'.error.symm, h'⟩

/-! ## Objects -/

theorem both_outside {α : Type} {m : Prog W Fault α} {Q : α → Ctx W → α → Ctx W → Prop}
    (hw : c.world = d.world)
    (hQ : ∀ a w, Q a (c.setWorld w) a (d.setWorld w)) : both (outside m) (outside m) Q c d := by
  unfold both outside
  rw [← hw]
  rcases m c.world with e | ⟨a, w⟩
  · rfl
  · exact hQ a w

/-- What is called outside sees no memory of a parcel. -/
theorem outside.paired {α : Type} (m : Prog W Fault α) : KeepsPaired (outside m) := by
  intro c d h
  refine both_outside h.world fun a w => ⟨rfl, ⟨?_, h.ends⟩⟩
  exact { h.toTwins with world := rfl }

theorem both_allocate {β : Type} {make make' : (Nat → Nat) → List β}
    {Q : Option (Block β) → Ctx W → Option (Block β) → Ctx W → Prop}
    (hgrants : SameGrants c.heap d.heap)
    (hnone : Q none (c.mapHeap Heap.next) none (d.mapHeap Heap.next))
    (hsome : ∀ a a' g g', Q (some ⟨a, make g⟩) (c.mapHeap Heap.next)
      (some ⟨a', make' g'⟩) (d.mapHeap Heap.next)) :
    both (allocate make) (allocate make') Q c d := by
  have hsame := hgrants 0
  rw [Nat.add_zero, Nat.add_zero] at hsame
  rw [both_iff_wp, wp_allocate, wp_allocate]
  rcases hc : c.heap.fresh c.heap.requests with _ | g <;>
    rcases hd : d.heap.fresh d.heap.requests with _ | g'
  · exact hnone
  · simp [hc, hd] at hsame
  · simp [hc, hd] at hsame
  · exact hsome _ _ g g'

/-- After the table was asked to grow: one result, and room if it grew. -/
def ObjectsGrown (c : Ctx W) (r : Int) (c' : Ctx W) (r' : Int) (d' : Ctx W) : Prop :=
  r = r' ∧ Paired c' d' ∧ c'.parcel.mDataPos = c.parcel.mDataPos ∧
    c'.parcel.mDataCapacity = c.parcel.mDataCapacity ∧
    (r = STATUS_OK → c'.parcel.mObjectsSize < c'.parcel.mObjectsCapacity)

theorem growObjects.paired (h : Paired c d) :
    both growObjects growObjects (ObjectsGrown c) c d := by
  have hno : ObjectsGrown c STATUS_NO_MEMORY c STATUS_NO_MEMORY d :=
    ⟨rfl, h, rfl, rfl, fun hok => by cases hok⟩
  have hlen := h.left.table
  have hlen' := h.right.table
  have hobj := h.left.objects
  have hsize := h.objectsSize
  have hcap := h.objectsCapacity
  unfold growObjects
  refine both_bind (both_thisParcel.mpr ?_)
  rw [h.objectsSize]
  refine both_ite (fun _ => hno) fun _ => both_ite (fun _ => hno) fun _ => ?_
  dsimp only
  refine both_ite (fun _ => hno) fun _ => ?_
  refine both_bind (both_allocate h.grants ?_ fun a a' g g' => ?_)
  · refine ⟨rfl, ⟨?_, h.ends⟩, rfl, rfl, fun hok => by cases hok⟩
    exact { h.toTwins with grants := h.grants.next rfl rfl rfl rfl }
  · refine ⟨rfl, ⟨?_, h.ends⟩, rfl, rfl, fun _ => ?_⟩
    · have hold : ∀ i, i < c.parcel.mObjectsSize →
          (resized c.parcel.table ((c.parcel.mObjectsSize + 2) * 3 / 2) (freshWord g))[i]? =
            c.parcel.table[i]? := fun i hi => getElem?_resized _ (by omega) (by omega)
      have hold' : ∀ i, i < d.parcel.mObjectsSize →
          (resized d.parcel.table ((c.parcel.mObjectsSize + 2) * 3 / 2) (freshWord g'))[i]? =
            d.parcel.table[i]? := fun i hi => getElem?_resized _ (by omega) (by omega)
      exact
        { left := h.left.fewer (Nat.le_refl _) rfl rfl rfl rfl rfl rfl (length_resized _ _ _)
            (by simp only [Ctx.parcel_mapParcel]; omega) hold
          right := h.right.fewer (Nat.le_refl _) rfl rfl rfl rfl rfl rfl (length_resized _ _ _)
            (by simp only [Ctx.parcel_mapParcel]; omega) hold'
          bare := congrArg (fun p => { p with
            mObjectsCapacity := (c.parcel.mObjectsSize + 2) * 3 / 2 }) h.bare
          place := h.place
          bytes := h.bytes
          offsets := fun i hi => (hold i hi).trans
            ((h.offsets i hi).trans (hold' i (hsize ▸ hi)).symm)
          world := h.world
          grants := h.grants.next rfl rfl rfl rfl }
    · simp only [Ctx.parcel_mapParcel, Ctx.parcel_mapHeap]
      omega

theorem both_storeObject {Q : Unit → Ctx W → Unit → Ctx W → Prop} {i o : Nat}
    (hl : i < c.parcel.table.length) (hr : i < d.parcel.table.length) :
    both (storeObject i o) (storeObject i o) Q c d ↔
      Q () (c.mapParcel fun p => p.listed i o) () (d.mapParcel fun p => p.listed i o) := by
  rw [both_iff_wp, wp_storeObject hl, wp_storeObject hr]

/-- One more object is listed in both. -/
theorem Twins.listed {o : Nat} (h : Twins S c d)
    (hroom : c.parcel.mObjectsSize < c.parcel.mObjectsCapacity)
    (ho : o + FLAT_SIZE ≤ c.parcel.mDataCapacity) (w : W) :
    Twins S
      (((c.mapParcel fun p => p.listed c.parcel.mObjectsSize o).setWorld w).mapParcel
        fun p => { p with mObjectsSize := p.mObjectsSize + 1 })
      (((d.mapParcel fun p => p.listed c.parcel.mObjectsSize o).setWorld w).mapParcel
        fun p => { p with mObjectsSize := p.mObjectsSize + 1 }) := by
  have hn := h.objectsSize
  obtain ⟨ll, hold, hnew⟩ := h.left.listed hroom ho
  obtain ⟨lr, hold', hnew'⟩ := h.right.listed (o := o) (by rwa [hn, h.objectsCapacity])
    (by rwa [h.capacity])
  rw [hn] at lr hold' hnew'
  exact
    { left := ll
      right := by
        simpa only [Ctx.parcel_mapParcel, Ctx.parcel_setWorld, Parcel.listed, hn] using lr
      bare := congrArg (fun p => { p with mObjectsSize := p.mObjectsSize + 1 }) h.bare
      place := h.place
      bytes := h.bytes
      offsets := by
        intro i hi
        rcases Nat.lt_succ_iff_lt_or_eq.mp hi with hlt | heq
        · exact (hold i hlt).trans ((h.offsets i hlt).trans (hold' i hlt).symm)
        · subst heq
          exact hnew.trans hnew'.symm
      world := rfl
      grants := h.grants }

/-- The stored object is listed in both, or in neither. -/
theorem listFlat.paired {val : FlatBinderObject} {nullMetaData : Bool}
    (h : Twins (fun i => i < c.parcel.mDataPos + FLAT_SIZE) c d)
    (hends : c.parcel.mDataPos = c.parcel.mDataSize)
    (hroom : c.parcel.mDataPos + FLAT_SIZE ≤ c.parcel.mDataCapacity)
    (hobj : c.parcel.mObjectsSize < c.parcel.mObjectsCapacity) :
    both (listFlat x val nullMetaData) (listFlat x val nullMetaData)
      (fun r c' r' d' => r = r' ∧ Paired c' d') c d := by
  have hfin : c.parcel.mDataPos + FLAT_SIZE ≤ INT32_MAX := Nat.le_trans hroom h.left.capacity
  have hfin' : d.parcel.mDataPos + FLAT_SIZE ≤ INT32_MAX := by rwa [h.pos]
  unfold listFlat
  refine both_ite (fun _ => ?_) fun _ => ?_
  · refine both_bind (both_thisParcel.mpr ?_)
    rw [h.objectsSize, h.pos]
    refine both_bind ((both_storeObject (by rwa [h.left.table])
      (by rwa [h.right.table, h.objectsCapacity])).mpr ?_)
    refine both_bind (both_outside h.world fun _ w => ?_)
    have hlisted := h.listed hobj hroom w
    refine both_bind (both_update.mpr ?_)
    refine (both_finishWrite ?_ ?_).mpr ?_
    · exact hfin
    · exact hfin'
    · exact ⟨rfl, .advanced hends hroom hlisted⟩
  · exact (both_finishWrite hfin hfin').mpr ⟨rfl, .advanced hends hroom h⟩

theorem storeFlat.paired {val : FlatBinderObject} {nullMetaData : Bool} (h : Paired c d)
    (hroom : c.parcel.mDataPos + FLAT_SIZE ≤ c.parcel.mDataCapacity)
    (hobj : c.parcel.mObjectsSize < c.parcel.mObjectsCapacity) :
    both (storeFlat x val nullMetaData) (storeFlat x val nullMetaData)
      (fun r c' r' d' => r = r' ∧ Paired c' d') c d := by
  have hends := h.ends
  have hbytes : c.parcel.mDataPos + val.toBytes.length ≤ c.parcel.mDataCapacity := by
    rwa [length_toBytes]
  have hstored : Twins (fun i => i < c.parcel.mDataPos + FLAT_SIZE)
      (c.mapParcel fun p => p.stored c.parcel.mDataPos val.toBytes)
      (d.mapParcel fun p => p.stored c.parcel.mDataPos val.toBytes) :=
    h.stored rfl hbytes fun i hi => ⟨fun _ => rfl, fun hout => by
      rw [length_toBytes] at hout
      omega⟩
  unfold storeFlat
  refine both_bind (both_thisParcel.mpr ?_)
  rw [h.pos, h.allowFds]
  refine both_bind ((both_storeData (by rwa [h.left.data])
    (by rwa [h.right.data, h.capacity])).mpr ?_)
  refine both_ite (fun _ => ?_) fun _ => listFlat.paired hstored hends hroom hobj
  refine both_ite (fun _ => ?_) fun _ => ?_
  · refine ⟨rfl, hstored.mono fun i hi => ?_, hends⟩
    have hi' : i < c.parcel.mDataSize := hi
    omega
  · have hflags : Twins (fun i => i < c.parcel.mDataPos + FLAT_SIZE)
        ((c.mapParcel fun p => p.stored c.parcel.mDataPos val.toBytes).mapParcel
          fun p => { p with mHasFds := true, mFdsKnown := true })
        ((d.mapParcel fun p => p.stored c.parcel.mDataPos val.toBytes).mapParcel
          fun p => { p with mHasFds := true, mFdsKnown := true }) :=
      { hstored with
        left := ⟨hstored.left.owner, hstored.left.pos, hstored.left.size, hstored.left.capacity,
          hstored.left.data, hstored.left.objects, hstored.left.table, hstored.left.offsets⟩
        right := ⟨hstored.right.owner, hstored.right.pos, hstored.right.size,
          hstored.right.capacity, hstored.right.data, hstored.right.objects, hstored.right.table,
          hstored.right.offsets⟩
        bare := congrArg (fun p => { p with mHasFds := true, mFdsKnown := true }) hstored.bare }
    exact both_bind (both_update.mpr (listFlat.paired hflags hends hroom hobj))

theorem listWithRoom.paired {val : FlatBinderObject} {nullMetaData : Bool} {enough : Bool}
    (h : Paired c d) (hroom : c.parcel.mDataPos + FLAT_SIZE ≤ c.parcel.mDataCapacity)
    (hobj : enough = true → c.parcel.mObjectsSize < c.parcel.mObjectsCapacity) :
    both (listWithRoom x enough val nullMetaData) (listWithRoom x enough val nullMetaData)
      (fun r c' r' d' => r = r' ∧ Paired c' d') c d := by
  unfold listWithRoom
  refine both_ite (fun hyes => storeFlat.paired h hroom (hobj hyes)) fun _ => ?_
  refine both_bind (both_mono (growObjects.paired h) ?_)
  rintro r c' r' d' ⟨rfl, h', hpos, hcap, hobjects⟩
  refine both_ite (fun hok => storeFlat.paired h' ?_ (hobjects hok)) fun _ => ⟨rfl, h'⟩
  rwa [hpos, hcap]

theorem writeObject.paired (val : FlatBinderObject) (nullMetaData : Bool) :
    KeepsPaired (writeObject x val nullMetaData) := by
  intro c d h
  have hends := h.ends
  have hsz := h.sz_pos (n := FLAT_SIZE) (by decide)
  have hgrow := flat_le_growthSize c.parcel.mDataSize
  unfold writeObject
  refine both_bind (both_thisParcel.mpr ?_)
  rw [h.pos, h.capacity, h.objectsSize, h.objectsCapacity]
  dsimp only
  rw [hsz]
  refine both_ite (fun hroom => listWithRoom.paired h hroom of_decide_eq_true) fun hfull => ?_
  refine both_bind (both_mono (growData.twins h.toTwins h.lt_capacity (by decide) (by decide)
    (by omega)) ?_)
  rintro r c' r' d' ⟨rfl, t, hpos, hsize, hobj, hobjcap, hroom⟩
  have h' := h.of_twins t hpos hsize
  refine both_ite (fun hok => listWithRoom.paired h' ?_ fun henough => ?_) fun _ => ⟨rfl, h'⟩
  · have hcap := hroom hok
    omega
  · rw [hobj, hobjcap]
    exact of_decide_eq_true henough

/-- What two objects held before does not matter where all of their fields are set. -/
theorem indeterminateObject.paired {α : Type} {f : FlatBinderObject → Prog (Ctx W) Fault α}
    (hset : ∀ obj obj', f obj = f obj') (hf : ∀ obj, KeepsPaired (f obj)) :
    KeepsPaired (indeterminateObject >>= f) := by
  intro c d h
  have h' : Paired (c.mapHeap (Heap.nextLocals 6)) (d.mapHeap (Heap.nextLocals 6)) :=
    { h with grants := h.grants }
  have hsame (obj obj' : FlatBinderObject) : both (f obj) (f obj')
      (fun r c' r' d' => r = r' ∧ Paired c' d') (c.mapHeap (Heap.nextLocals 6))
      (d.mapHeap (Heap.nextLocals 6)) := by
    rw [hset obj' obj]
    exact hf obj _ _ h'
  apply both_bind
  exact hsame _ _

theorem writeFileDescriptor.paired (fd : BitVec 32) (takeOwnership : Bool) :
    KeepsPaired (writeFileDescriptor x fd takeOwnership) := by
  rw [writeFileDescriptor_eq]
  apply indeterminateObject.paired
  · intro _ _
    rfl
  · intro _
    exact writeObject.paired _ _

/-- A binder is flattened from what the calls outside say of it, and they see no memory of a
parcel. -/
theorem writeStrongBinder.paired {x : Calls W} (val : BitVec 64) :
    KeepsPaired (writeStrongBinder x val) := by
  unfold writeStrongBinder flattenBinder finishFlattenBinder
  apply indeterminateObject.paired
  · intro obj obj'
    rw [flatOf_any x val obj obj']
  intro old
  refine (outside.paired _).bind fun obj => (writeObject.paired obj false).bind fun status => ?_
  intro c d h
  refine both_ite (fun _ => ⟨rfl, h⟩) fun _ => ?_
  refine Keeps₂.bind (outside.paired _) (fun _ => ?_) c d h
  exact (outside.paired _).bind fun rep => writeInt32.paired _

/-! ## Whole messages -/

/-- A write of a message. -/
inductive MessageWrite
  | int32 (val : BitVec 32)
  | bool (val : Bool)
  | pointer (val : BitVec 64)
  | blob (data : List UInt8)
  | string16 (str : Option BinderString)
  | fileDescriptor (fd : BitVec 32) (takeOwnership : Bool)
  | strongBinder (val : BitVec 64)
deriving DecidableEq

/-- A string is as long as it says. -/
def MessageWrite.WellFormed : MessageWrite → Prop
  | .string16 str => ∀ s, str = some s → ∃ text, s.Carries text
  | _ => True

section

variable (x : Calls W)

def runWrite : MessageWrite → Prog (Ctx W) Fault Int
  | .int32 val => writeInt32 x.toOutside val
  | .bool val => writeBool x.toOutside val
  | .pointer val => writePointer x.toOutside val
  | .blob data => write x.toOutside data
  | .string16 str => writeString16 x.toOutside str
  | .fileDescriptor fd takeOwnership => writeFileDescriptor x.toOutside fd takeOwnership
  | .strongBinder val => writeStrongBinder x val

/-- Writes one after another, with what each returns. -/
def runWrites : List MessageWrite → Prog (Ctx W) Fault (List Int)
  | [] => pure []
  | w :: ws => do
    let r ← runWrite x w
    let rs ← runWrites ws
    pure (r :: rs)

end

/-- What the driver sends of a parcel: its bytes, and where the objects stand in them. -/
def message (p : Parcel) : List UInt8 × List Nat :=
  (window p.cells 0 p.mDataSize, window p.table 0 p.mObjectsSize)

theorem runWrite.paired {x : Calls W} {w : MessageWrite} (hw : w.WellFormed) :
    KeepsPaired (runWrite x w) := by
  cases w with
  | int32 val => exact writeInt32.paired val
  | bool val => exact writeInt32.paired _
  | pointer val => exact writePointer.paired val
  | blob data => exact write.paired data
  | string16 str => exact writeString16.paired hw
  | fileDescriptor fd takeOwnership => exact writeFileDescriptor.paired fd takeOwnership
  | strongBinder val => exact writeStrongBinder.paired val

theorem runWrites.paired {x : Calls W} {ws : List MessageWrite} (hws : ∀ w ∈ ws, w.WellFormed) :
    KeepsPaired (runWrites x ws) := by
  induction ws with
  | nil => exact .pure []
  | cons w ws ih =>
    obtain ⟨hw, hrest⟩ := List.forall_mem_cons.mp hws
    exact (runWrite.paired hw).bind fun r => (ih hrest).bind fun rs => .pure (r :: rs)

/-- Two fresh parcels hold the same: nothing. -/
theorem Paired.of_empty (hc : c.parcel = empty) (hd : d.parcel = empty) (hw : c.world = d.world)
    (hgrants : SameGrants c.heap d.heap) : Paired c d where
  left := by
    rw [hc]
    exact empty_local
  right := by
    rw [hd]
    exact empty_local
  bare := by rw [hc, hd]
  place := by rw [hc, hd]
  bytes := fun _ _ => by rw [hc, hd]
  offsets := fun _ _ => by rw [hc, hd]
  world := hw
  grants := hgrants
  ends := by
    rw [hc]
    rfl

theorem Paired.message (h : Paired c d) : message c.parcel = message d.parcel := by
  unfold Parcel.message
  rw [h.size, h.objectsSize]
  refine Prod.ext ?_ ?_
  · exact window_congr fun i _ hi => h.bytes i (by omega)
  · exact window_congr fun i _ hi => h.offsets i (by omega)

/-- Whatever stood in fresh memory and in variables, the same writes on fresh parcels return the
same and build the same message. -/
theorem nothing_old_is_sent (x : Calls W) (ws : List MessageWrite) (c d : Ctx W)
    (hc : c.parcel = empty) (hd : d.parcel = empty) (hw : c.world = d.world)
    (hgrants : SameGrants c.heap d.heap) (hws : ∀ w ∈ ws, w.WellFormed) :
    (runWrites x ws c).map (fun r => (r.1, message r.2.parcel)) =
      (runWrites x ws d).map (fun r => (r.1, message r.2.parcel)) := by
  refine both.same (f := fun rs e => (rs, message e.parcel))
    (g := fun rs e => (rs, message e.parcel))
    (runWrites.paired hws c d (.of_empty hc hd hw hgrants)) ?_
  rintro rs c' rs' d' ⟨rfl, h⟩
  rw [h.message]

/-- The same requests as `plenty` grants, with other things in the memory. -/
def littered : Heap := { plenty with fresh := fun _ => some fun i => i + 1, leftover := fun _ => 9 }

theorem nothing_old_is_sent_with_a_string_and_a_file :
    (runWrites quiet [.blob [1], .string16 (some hi), .strongBinder 0, .fileDescriptor 5 true]
        ⟨empty, plenty, ()⟩).map (fun r => (r.1, message r.2.parcel)) =
      (runWrites quiet [.blob [1], .string16 (some hi), .strongBinder 0, .fileDescriptor 5 true]
        ⟨empty, littered, ()⟩).map (fun r => (r.1, message r.2.parcel)) :=
  nothing_old_is_sent quiet _ ⟨empty, plenty, ()⟩ ⟨empty, littered, ()⟩ rfl rfl rfl
    (fun _ => rfl) (by
      intro w hw
      simp only [List.mem_cons, List.not_mem_nil, or_false] at hw
      rcases hw with rfl | rfl | rfl | rfl
      · trivial
      · exact fun s hs => ⟨[104, 105], Option.some.inj hs ▸ hi_holds.carries⟩
      · trivial
      · trivial)

end system_binder.Parcel
