-- What is written at the end of a parcel and what is read from it in order: objects that the table
-- lists one behind the other, and values between them.
import SystemBinder.ParcelCuts
import SystemBinder.ParcelPossession
import SystemBinder.ParcelSpace
import SystemBinder.ParcelWorld

open prog memory

namespace system_binder

/-- An object is read from its bytes as it was. -/
theorem FlatBinderObject.ofBytes_toBytes (obj : FlatBinderObject) :
    FlatBinderObject.ofBytes obj.toBytes = obj := by
  have htype : window obj.toBytes 0 4 = wordBytes 4 obj.type := rfl
  have hflags : window obj.toBytes 4 4 = wordBytes 4 obj.flags := rfl
  have hbinder : window obj.toBytes 8 8 = wordBytes 8 obj.binder := rfl
  have hcookie : window obj.toBytes 16 8 = wordBytes 8 obj.cookie := rfl
  unfold FlatBinderObject.ofBytes
  rw [htype, hflags, hbinder, hcookie, bytesWord_wordBytes (by rfl : 32 = 8 * 4),
    bytesWord_wordBytes (by rfl : 32 = 8 * 4), bytesWord_wordBytes (by rfl : 64 = 8 * 8),
    bytesWord_wordBytes (by rfl : 64 = 8 * 8)]

namespace Parcel

/-! ## Objects are written -/

variable {W : Type} {x : Outside W} {c c' c'' : Ctx W} {E : Fault → Prop} {val : FlatBinderObject}
  {nullMetaData : Bool}

/-- All went well, and the parcel has the error that it had. -/
def Fine (c : Ctx W) (r : Int) (c' : Ctx W) : Prop :=
  r = STATUS_OK ∧ c'.parcel.mError = c.parcel.mError

theorem storeData.error {pos : Nat} {xs : List UInt8} :
    wp (storeData pos xs) (fun _ c' => c'.parcel.mError = c.parcel.mError) (fun _ => True) c := by
  unfold wp storeData
  cases c.parcel.mData with
  | none => by_cases hxs : xs = [] <;> simp [hxs]
  | some b => by_cases hin : pos + xs.length ≤ b.cells.length <;> simp [hin]

theorem storeObject.error {i o : Nat} :
    wp (storeObject i o) (fun _ c' => c'.parcel.mError = c.parcel.mError) (fun _ => True) c := by
  unfold wp storeObject
  cases c.parcel.mObjects with
  | none => trivial
  | some b => by_cases hin : i < b.cells.length <;> simp [hin]

theorem listFlat.fine : wp (listFlat x val nullMetaData) (Fine c) (fun _ => True) c := by
  unfold listFlat finishWrite
  split
  · rw [wp_bind, wp_thisParcel, wp_bind]
    apply wp_imp storeObject.error
    intro _ c₁ herror
    rw [wp_bind, wp_outside]
    apply wp_of_all (fun _ w => ?_) fun _ => trivial
    exact ⟨rfl, herror⟩
  · exact ⟨rfl, rfl⟩

theorem storeFlat.fine (htype : val.type ≠ BINDER_TYPE_FD) :
    wp (storeFlat x val nullMetaData) (Fine c) (fun _ => True) c := by
  unfold storeFlat
  rw [wp_bind, wp_thisParcel, wp_bind]
  apply wp_imp storeData.error
  intro _ c₁ herror
  rw [if_neg htype]
  apply wp_imp listFlat.fine
  rintro r c₂ ⟨hr, hsame⟩
  exact ⟨hr, hsame.trans herror⟩

theorem growObjects.fine (ha : Ample c.heap) (hfew : c.parcel.mObjectsSize ≤ 2 ^ 30) :
    wp growObjects (Fine c) (fun _ => True) c := by
  unfold growObjects reallocObjects
  rw [wp_bind, wp_thisParcel, if_neg (by unfold SIZE_MAX; omega),
    if_neg (by unfold SIZE_MAX; omega)]
  dsimp only
  rw [if_neg (by unfold SIZE_MAX; omega), wp_bind, wp_allocate]
  cases hfresh : c.heap.fresh c.heap.requests with
  | none => exact absurd hfresh (ha _)
  | some g => exact ⟨rfl, rfl⟩

theorem listWithRoom.fine {enough : Bool} (ha : Ample c.heap)
    (hfew : c.parcel.mObjectsSize ≤ 2 ^ 30) (htype : val.type ≠ BINDER_TYPE_FD) :
    wp (listWithRoom x enough val nullMetaData) (Fine c) (fun _ => True) c := by
  unfold listWithRoom
  split
  · exact storeFlat.fine htype
  · rw [wp_bind]
    apply wp_imp (growObjects.fine ha hfew)
    rintro _ c₁ ⟨rfl, herror⟩
    rw [if_pos rfl]
    apply wp_imp (storeFlat.fine htype)
    rintro r c₂ ⟨hr, hsame⟩
    exact ⟨hr, hsame.trans herror⟩

/-- With memory to be had, an object that is no file is written. -/
theorem writeObject.fine (l : Local c.parcel) (ha : Ample c.heap)
    (hfew : c.parcel.mObjectsSize ≤ 2 ^ 30) (hfit : c.parcel.mDataSize + FLAT_SIZE ≤ 2 ^ 30)
    (htype : val.type ≠ BINDER_TYPE_FD) :
    wp (writeObject x val nullMetaData) (Fine c) (fun _ => True) c := by
  unfold writeObject
  rw [wp_bind, wp_thisParcel]
  dsimp only
  split
  · exact listWithRoom.fine ha hfew htype
  · rename_i hfull
    have hgrow := flat_le_growthSize c.parcel.mDataSize
    have hpos := l.pos
    have hsz : sz (c.parcel.mDataPos + FLAT_SIZE) = c.parcel.mDataPos + FLAT_SIZE := by
      apply sz_of_le
      unfold SIZE_MAX
      omega
    rw [wp_bind]
    apply growData.room l (by decide) (by decide) (by omega)
    · intro c₁ hkept herror _
      have ha₁ : Ample c₁.heap := by
        unfold Ample
        rw [hkept.fresh]
        exact ha
      rw [if_pos rfl]
      apply wp_imp (listWithRoom.fine ha₁ (by rw [hkept.objectsSize]; exact hfew) htype)
      rintro r c₂ ⟨hr, hsame⟩
      exact ⟨hr, hsame.trans herror⟩
    · intro err c₁ _ _ hno
      exact absurd hno (can_grow ha (by unfold FLAT_SIZE at hfit; omega))

/-! ### Where a parcel grows at its end -/

theorem Apart.bound {l : List Nat} {m n : Nat} (h : Apart (l ++ [m])) (hle : m ≤ n) :
    Apart (l ++ [n]) := by
  unfold Apart at h ⊢
  rw [List.pairwise_append] at h ⊢
  refine ⟨h.1, List.pairwise_singleton _ _, fun a ha b hb => ?_⟩
  rw [List.mem_singleton] at hb
  have hbefore := h.2.2 a ha m (by simp)
  omega

theorem Apart.concat {l : List Nat} {m n : Nat} (h : Apart (l ++ [m])) (hle : m + FLAT_SIZE ≤ n) :
    Apart (l ++ [m] ++ [n]) := by
  unfold Apart at h ⊢
  rw [List.pairwise_append]
  refine ⟨h, List.pairwise_singleton _ _, fun a ha b hb => ?_⟩
  rw [List.mem_singleton] at hb
  rcases List.mem_append.mp ha with hmem | hlast
  · have hbefore := (List.pairwise_append.mp h).2.2 a hmem m (by simp)
    omega
  · rw [List.mem_singleton] at hlast
    omega

/-- The position is at the end of the data, and the objects lie one behind the other before it. -/
structure Tidy (p : Parcel) : Prop where
  isLocal : Local p
  atEnd : p.mDataPos = p.mDataSize
  apart : Apart (retained p ++ [p.mDataPos])

theorem Tidy.before {p : Parcel} (h : Tidy p) : ∀ o ∈ retained p, o < p.mDataPos := by
  intro o ho
  have hle := (List.pairwise_append.mp h.apart).2.2 o ho _ (List.mem_singleton_self _)
  unfold FLAT_SIZE at hle
  omega

/-- `c'` is `c` with `n` more bytes at the end, which the table lists at `offsets`. -/
structure Lengthened (c c' : Ctx W) (n : Nat) (offsets : List Nat) : Prop where
  tidy : Tidy c'.parcel
  pos : c'.parcel.mDataPos = c.parcel.mDataPos + n
  before : ∀ q m, q + m ≤ c.parcel.mDataPos →
    window c'.parcel.cells q m = window c.parcel.cells q m
  retained : retained c'.parcel = retained c.parcel ++ offsets
  error : c'.parcel.mError = c.parcel.mError
  fresh : c'.heap.fresh = c.heap.fresh

theorem Lengthened.refl (h : Tidy c.parcel) : Lengthened c c 0 [] :=
  ⟨h, rfl, fun _ _ _ => rfl, (List.append_nil _).symm, rfl, rfl⟩

theorem Lengthened.trans {n m : Nat} {offsets more : List Nat} (h : Lengthened c c' n offsets)
    (h' : Lengthened c' c'' m more) : Lengthened c c'' (n + m) (offsets ++ more) where
  tidy := h'.tidy
  pos := by rw [h'.pos, h.pos, Nat.add_assoc]
  before := by
    intro q k hq
    rw [h'.before q k (by rw [h.pos]; omega), h.before q k hq]
  retained := by rw [h'.retained, h.retained, List.append_assoc]
  error := h'.error.trans h.error
  fresh := h'.fresh.trans h.fresh

theorem Lengthened.of_setWorld {n : Nat} {offsets : List Nat} {w : W}
    (h : Lengthened (c.setWorld w) c' n offsets) : Lengthened c c' n offsets :=
  ⟨h.tidy, h.pos, h.before, h.retained, h.error, h.fresh⟩

theorem Lengthened.of_nextLocals {n k : Nat} {offsets : List Nat}
    (h : Lengthened (c.mapHeap (Heap.nextLocals k)) c' n offsets) : Lengthened c c' n offsets :=
  ⟨h.tidy, h.pos, h.before, h.retained, h.error, h.fresh⟩

theorem Lengthened.ample {n : Nat} {offsets : List Nat} (h : Lengthened c c' n offsets)
    (ha : Ample c.heap) :
    Ample c'.heap := by
  unfold Ample
  rw [h.fresh]
  exact ha

theorem Advanced.retained {n : Nat} (a : Advanced c c' n) :
    Parcel.retained c'.parcel = Parcel.retained c.parcel := by
  unfold Parcel.retained Parcel.table
  rw [a.objects, a.objectsSize]

theorem Advanced.tidy {n : Nat} (h : Tidy c.parcel) (a : Advanced c c' n) : Tidy c'.parcel := by
  have hatEnd := h.atEnd
  have hsize := a.size
  have hpos := a.pos
  refine ⟨a.isLocal, by omega, ?_⟩
  rw [a.retained]
  exact h.apart.bound (by omega)

theorem Advanced.lengthened {n : Nat} (h : Tidy c.parcel) (a : Advanced c c' n) :
    Lengthened c c' n [] := by
  have hatEnd := h.atEnd
  have hcapacity := h.isLocal.size
  exact ⟨a.tidy h, a.pos, fun q m hq => a.others q m (by omega) (.inl hq),
    by rw [a.retained, List.append_nil], a.error, a.fresh⟩

theorem Added.retained {listed : Bool} (h : Local c.parcel) (a : Added c c' val listed) :
    Parcel.retained c'.parcel =
      Parcel.retained c.parcel ++ if listed = true then [c.parcel.mDataPos] else [] := by
  have htable : c.parcel.mObjectsSize ≤ c.parcel.table.length := by
    rw [h.table]
    exact h.objects
  cases listed with
  | false =>
    rw [if_neg (by decide), List.append_nil]
    exact retained_congr a.objects a.table
  | true =>
    rw [if_pos rfl]
    exact retained_append a.objects htable a.table (a.entry rfl)

theorem Added.tidy {listed : Bool} (h : Tidy c.parcel) (a : Added c c' val listed) :
    Tidy c'.parcel := by
  have hatEnd := h.atEnd
  have hsize := a.size
  have hpos := a.pos
  refine ⟨a.isLocal, by omega, ?_⟩
  rw [a.retained h.isLocal, hpos]
  cases listed with
  | false =>
    simp only [Bool.false_eq_true, if_false, List.append_nil]
    exact h.apart.bound (by omega)
  | true =>
    rw [if_pos rfl]
    exact h.apart.concat (Nat.le_refl _)

theorem Added.lengthened {listed : Bool} (h : Tidy c.parcel) (a : Added c c' val listed)
    (herror : c'.parcel.mError = c.parcel.mError) :
    Lengthened c c' FLAT_SIZE (if listed = true then [c.parcel.mDataPos] else []) := by
  have hatEnd := h.atEnd
  have hcapacity := h.isLocal.size
  exact ⟨a.tidy h, a.pos, fun q m hq => a.others q m (by omega) (.inl hq), a.retained h.isLocal,
    herror, a.fresh⟩

/-- An object goes to the end of a parcel, and is listed there unless it is a null one. -/
theorem writeObject.grows {R : W → Prop} (h : Tidy c.parcel) (ha : Ample c.heap)
    (hfit : c.parcel.mDataPos + FLAT_SIZE ≤ 2 ^ 30) (htype : val.type ≠ BINDER_TYPE_FD)
    (hlisted : val.binder ≠ 0 →
      wp (acquire_object x val) (fun _ w => R w) (fun e => E (.inCall e)) c.world)
    (hplain : val.binder = 0 → R c.world) :
    wp (writeObject x val false) (fun r c' => r = STATUS_OK ∧ R c'.world ∧
      Lengthened c c' FLAT_SIZE (if val.binder ≠ 0 then [c.parcel.mDataPos] else []) ∧
      window c'.parcel.cells c.parcel.mDataPos FLAT_SIZE = val.toBytes) E c := by
  have hatEnd := h.atEnd
  have hfew : c.parcel.mObjectsSize ≤ 2 ^ 30 := by
    have hlength := Apart.length_le (List.pairwise_append.mp h.apart).1 h.before
    have hobjects := h.isLocal.objects
    have htable := h.isLocal.table
    unfold retained at hlength
    rw [List.length_take] at hlength
    omega
  have hfine : wp (writeObject x val false) (Fine c) (fun _ => True) c :=
    writeObject.fine h.isLocal ha hfew (by omega) htype
  have hspec : wp (writeObject x val false) (fun r c' => r = STATUS_OK →
      R c'.world ∧ ∃ listed, (listed = true ↔ val.binder ≠ 0) ∧ Added c c' val listed) E c := by
    apply writeObject.spec h.isLocal
    · intro r c' hne _ hok
      exact absurd hok hne
    · intro hyes
      have hyes' : val.binder ≠ 0 := hyes.resolve_left (by decide)
      apply wp_imp (hlisted hyes')
      intro _ w hw c' hadded hworld _
      exact ⟨by rwa [hworld], true, ⟨fun _ => hyes', fun _ => rfl⟩, hadded⟩
    · intro hno c' hadded hworld _
      rw [not_or, not_not] at hno
      exact ⟨by rw [hworld]; exact hplain hno.2, false, by simp [hno.2], hadded⟩
  apply wp_imp (wp_and_returned hspec hfine)
  rintro r c' ⟨hgot, hr, herror⟩
  obtain ⟨hw, listed, hiff, hadded⟩ := hgot hr
  refine ⟨hr, hw, ?_, hadded.flat⟩
  have hlonger := hadded.lengthened h herror
  by_cases hbinder : val.binder ≠ 0
  · rw [if_pos hbinder]
    rwa [if_pos (hiff.mpr hbinder)] at hlonger
  · rw [if_neg hbinder]
    rwa [if_neg fun hyes => hbinder (hiff.mp hyes)] at hlonger

/-! ### Where a parcel is cut, and where it is freed -/

theorem Tidy.inOrder {p : Parcel} (h : Tidy p) : InOrder p where
  ascending := by
    apply List.Pairwise.imp _ (List.pairwise_append.mp h.apart).1
    intro a b hle
    unfold FLAT_SIZE at hle
    omega
  inside := by
    intro o ho
    rw [← h.atEnd]
    exact h.before o ho

/-- `c'` is `c` cut at `n`. -/
structure CutAt (c c' : Ctx W) (n : Nat) : Prop where
  tidy : Tidy c'.parcel
  pos : c'.parcel.mDataPos = n
  before : ∀ q m, q + m ≤ n → window c'.parcel.cells q m = window c.parcel.cells q m
  retained : retained c'.parcel = (retained c.parcel).filter (· < n)
  error : c'.parcel.mError = c.parcel.mError
  fresh : c'.heap.fresh = c.heap.fresh

theorem Apart.cut {l : List Nat} {n : Nat} (h : Apart l)
    (hwhole : ∀ o ∈ l, o < n → o + FLAT_SIZE ≤ n) : Apart (l.filter (· < n) ++ [n]) := by
  unfold Apart at h ⊢
  rw [List.pairwise_append]
  refine ⟨h.filter _, List.pairwise_singleton _ _, fun a ha b hb => ?_⟩
  rw [List.mem_singleton.mp hb]
  obtain ⟨hmem, hlt⟩ := List.mem_filter.mp ha
  exact hwhole a hmem (of_decide_eq_true hlt)

/-- A smaller size that cuts through no object releases the objects behind it. -/
theorem setDataSize.cutsAt {R : W → Prop} {n : Nat} (h : Tidy c.parcel) (ha : Ample c.heap)
    (hn : n ≤ c.parcel.mDataPos)
    (hwhole : ∀ o ∈ retained c.parcel, o < n → o + FLAT_SIZE ≤ n)
    (hrelease : wp (releaseAll x (((retained c.parcel).filter fun o => !decide (o < n)).map
      c.parcel.flatAt)) (fun _ w => R w) (fun e => E (.inCall e)) c.world) :
    wp (setDataSize x n) (fun r c' => r = STATUS_OK ∧ R c'.world ∧ CutAt c c' n) E c := by
  have l := h.isLocal
  have hatEnd := h.atEnd
  have hcapacity := l.size
  have hmax := l.capacity
  have hcut := Apart.cut (List.pairwise_append.mp h.apart).1 hwhole
  unfold setDataSize
  rw [if_neg (by omega), wp_bind]
  cases hdata : c.parcel.mData with
  | some data =>
    apply continueWrite.spec_shrink l hdata (by omega)
    rw [h.inOrder.dropped_eq l]
    apply wp_imp hrelease
    intro _ w hw c₁ s hworld
    have hlist : retained c₁.parcel = (retained c.parcel).filter (· < n) := by
      rw [← h.inOrder.take_kept l]
      unfold retained
      apply List.ext_getElem?
      intro i
      rw [s.objects, List.getElem?_take, List.getElem?_take]
      split
      · rename_i hi
        exact s.table i hi
      · rfl
    have hpos₁ : c₁.parcel.mDataPos = n := by
      rw [s.pos]
      omega
    rw [if_pos rfl]
    refine ⟨rfl, by rwa [← hworld] at hw, ⟨s.isLocal.withSize (by omega) (by
      rw [s.capacity]
      omega), hpos₁, ?_⟩, hpos₁, fun q m _ => ?_, hlist, s.error, s.fresh⟩
    · show Apart (retained c₁.parcel ++ [c₁.parcel.mDataPos])
      rwa [hlist, hpos₁]
    · show window c₁.parcel.cells q m = _
      rw [s.cells]
  | none =>
    -- without data there is nothing to cut
    have hcells : c.parcel.cells = [] := by
      unfold Parcel.cells
      rw [hdata]
      rfl
    have hlen := l.data
    rw [hcells, List.length_nil] at hlen
    have hnone : retained c.parcel = [] := by
      apply List.eq_nil_iff_forall_not_mem.mpr
      intro o ho
      have := h.before o ho
      omega
    rw [hnone] at hrelease
    rw [continueWrite.spec_first l.sound.toFramed l.sound.starts l.owner (by omega) hdata]
    cases hfresh : c.heap.fresh c.heap.requests with
    | none => exact absurd hfresh (ha _)
    | some g =>
      have k : Kept c (grown c n g) := grown_kept l g (by omega) (by omega)
      have hlist : retained (grown c n g).parcel = [] := by
        rw [retained_congr k.objectsSize fun i hi => k.prepared.table i hi, hnone]
      have hpos₁ : (grown c n g).parcel.mDataPos = n := by
        rw [k.pos]
        omega
      dsimp only
      rw [if_pos rfl]
      refine ⟨rfl, by rw [← k.world] at hrelease; exact hrelease, ⟨k.isLocal.withSize (by omega) (by
        have := k.capacity
        omega), hpos₁, ?_⟩, hpos₁, fun q m hq => ?_, ?_, rfl, k.fresh⟩
      · show Apart (retained (grown c n g).parcel ++ [(grown c n g).parcel.mDataPos])
        rw [hlist]
        exact List.pairwise_singleton _ _
      · obtain rfl : m = 0 := by omega
        rw [window_zero, window_zero]
      · rw [hnone]
        exact hlist

/-- The buffer goes back, with zeros in it or as it is. -/
theorem freeOwnData.frees (l : Local c.parcel) :
    wp freeOwnData (fun _ c' => c'.world = c.world ∧ c'.heap.fresh = c.heap.fresh) E c := by
  have hsize : 0 + (List.replicate c.parcel.mDataSize (0 : UInt8)).length ≤
      c.parcel.cells.length := by
    rw [List.length_replicate, l.data, Nat.zero_add]
    exact l.size
  unfold freeOwnData
  rw [wp_bind, wp_thisParcel]
  cases c.parcel.mData with
  | none => exact ⟨rfl, rfl⟩
  | some b =>
    dsimp only
    rw [wp_bind, wp_updateHeap, wp_bind, wp_updateHeap]
    split
    · rw [wp_bind, wp_storeData (by exact hsize), wp_bind, wp_thisParcel]
      split
      · exact ⟨rfl, rfl⟩
      · exact ⟨rfl, rfl⟩
    · rw [wp_bind, wp_thisParcel]
      split
      · exact ⟨rfl, rfl⟩
      · exact ⟨rfl, rfl⟩

/-- A parcel that is freed releases its objects, last to first. -/
theorem freeData.frees {R : W → Prop} (l : Local c.parcel)
    (hrelease : wp (releaseAll x ((retained c.parcel).map c.parcel.flatAt).reverse)
      (fun _ w => R w) (fun e => E (.inCall e)) c.world) :
    wp (freeData x) (fun _ c' => R c'.world ∧ c'.parcel = empty ∧ c'.heap.fresh = c.heap.fresh)
      E c := by
  unfold freeData freeDataNoInit initState
  rw [wp_bind, wp_bind, wp_thisParcel, l.owner]
  dsimp only
  unfold releaseObjects
  rw [wp_bind, wp_bind, wp_thisParcel]
  apply releaseDown_down.spec fun i _ hi => l.listed_object (by omega)
  rw [← releaseAll_eq_forEach]
  apply wp_imp hrelease
  intro _ w hw
  rw [wp_bind]
  apply wp_imp (freeOwnData.frees (c := c.setWorld w) l)
  rintro _ c₁ ⟨hworld, hfresh⟩
  have hend : R c₁.world := by
    rw [hworld]
    exact hw
  unfold freeOwnObjects
  rw [wp_bind, wp_thisParcel]
  cases c₁.parcel.mObjects with
  | none => exact ⟨hend, rfl, hfresh⟩
  | some table => exact ⟨hend, rfl, hfresh⟩

/-! ### Where a parcel is read on -/

/-- The hint of the look-up moved at most. -/
def Hinted (c c' : Ctx W) : Prop :=
  ∃ n, c' = c.mapParcel fun p => { p with mNextObjectHint := n }

theorem Hinted.frame : Frame (Hinted (W := W)) fun _ (_ : Fault) => True where
  refl := fun c => ⟨c.parcel.mNextObjectHint, rfl⟩
  trans := by
    rintro c _ _ ⟨n, rfl⟩ ⟨m, rfl⟩
    exact ⟨m, rfl⟩
  stops := fun _ _ => trivial

/-- A look-up changes nothing but the hint, whatever is listed. -/
theorem findObject.hinted (dpos : Nat) :
    Keeps Hinted (fun _ _ => True) (findObject dpos : Prog (Ctx W) Fault Bool) := by
  have hframe := Hinted.frame (W := W)
  have hload : ∀ i, Keeps Hinted (fun _ _ => True) (loadObject i : Prog (Ctx W) Fault Nat) :=
    fun i c => wp_loadObject_table fun _ _ => hframe.refl c
  have hahead : ∀ n opos, Keeps Hinted (fun _ _ => True)
      (searchForward dpos n opos : Prog (Ctx W) Fault Nat) := by
    intro n
    induction n with
    | zero => exact fun opos => hframe.pure opos
    | succ n ih => exact fun opos => hframe.bind (hload opos) fun _ => (ih _).ite (hframe.pure _)
  have hback : ∀ opos, Keeps Hinted (fun _ _ => True)
      (searchBackward dpos opos : Prog (Ctx W) Fault Nat) := by
    intro opos
    induction opos with
    | zero => exact hframe.pure 0
    | succ opos ih => exact hframe.bind (hload _) fun _ => ih.ite (hframe.pure _)
  have hfound : ∀ opos (orElse : Prog (Ctx W) Fault Bool),
      Keeps Hinted (fun _ _ => True) orElse →
        Keeps Hinted (fun _ _ => True) (foundAt dpos opos orElse) := by
    intro opos orElse helse
    exact hframe.bind (hload opos) fun _ => .ite (fun c => ⟨opos + 1, rfl⟩) helse
  have hfrom : ∀ opos, Keeps Hinted (fun _ _ => True)
      (findFrom dpos opos : Prog (Ctx W) Fault Bool) := fun opos =>
    hfound opos _ (hframe.bind (hback opos) fun _ => hfound _ _ (hframe.pure false))
  unfold findObject
  apply hframe.bind (m := thisParcel) fun c => hframe.refl c
  intro p
  apply Keeps.ite (hframe.pure false)
  exact .ite (hframe.bind (hahead _ _) hfrom) (hfrom _)

/-- `c'` is `c` read on by `n` bytes. -/
structure MovedOn (c c' : Ctx W) (n : Nat) : Prop where
  data : c'.parcel.mData = c.parcel.mData
  size : c'.parcel.mDataSize = c.parcel.mDataSize
  objects : c'.parcel.mObjects = c.parcel.mObjects
  objectsSize : c'.parcel.mObjectsSize = c.parcel.mObjectsSize
  pos : c'.parcel.mDataPos = c.parcel.mDataPos + n

theorem MovedOn.trans {n m : Nat} (h : MovedOn c c' n) (h' : MovedOn c' c'' m) :
    MovedOn c c'' (n + m) :=
  ⟨h'.data.trans h.data, h'.size.trans h.size, h'.objects.trans h.objects,
    h'.objectsSize.trans h.objectsSize, by rw [h'.pos, h.pos, Nat.add_assoc]⟩

theorem MovedOn.cells {n : Nat} (h : MovedOn c c' n) : c'.parcel.cells = c.parcel.cells := by
  unfold Parcel.cells
  rw [h.data]

theorem MovedOn.retained {n : Nat} (h : MovedOn c c' n) :
    Parcel.retained c'.parcel = Parcel.retained c.parcel := by
  unfold Parcel.retained Parcel.table
  rw [h.objects, h.objectsSize]

theorem ReadOver.past {n : Nat} (h : ReadOver c n c') : MovedOn c c' n := by
  unfold ReadOver at h
  constructor <;> rw [h]

/-- A parcel that can be read, with its objects one behind the other. -/
structure Legible (p : Parcel) : Prop where
  readable : Readable p
  apart : Apart (retained p)
  table : p.mObjectsSize ≤ p.table.length

/-- A parcel can be read from wherever the position is set back to. -/
theorem Tidy.legible {p : Parcel} {pos : Nat} (h : Tidy p) (hpos : pos ≤ p.mDataPos) :
    Legible { p with mDataPos := pos, mNextObjectHint := 0, mObjectsSorted := false } := by
  have hatEnd := h.atEnd
  have hreadable := h.isLocal.readable
  refine ⟨⟨?_, hreadable.data, hreadable.fits⟩, (List.pairwise_append.mp h.apart).1, ?_⟩
  · show pos ≤ p.mDataSize
    omega
  · show p.mObjectsSize ≤ p.table.length
    rw [h.isLocal.table]
    exact h.isLocal.objects

theorem MovedOn.legible {n : Nat} (h : MovedOn c c' n) (hl : Legible c.parcel)
    (hin : c.parcel.mDataPos + n ≤ c.parcel.mDataSize) : Legible c'.parcel := by
  refine ⟨⟨?_, ?_, ?_⟩, ?_, ?_⟩
  · rw [h.pos, h.size]
    exact hin
  · rw [h.size, h.cells]
    exact hl.readable.data
  · rw [h.cells]
    exact hl.readable.fits
  · rw [h.retained]
    exact hl.apart
  · unfold Parcel.table
    rw [h.objects, h.objectsSize]
    exact hl.table

theorem readValue.leaves {R : Ctx W → Ctx W → Prop} [ReadFrame R] (v : Value) :
    Leaves R (readValue v : Prog (Ctx W) Fault (Int × Got)) := by
  cases v with
  | int32 val => exact Leaves.indeterminate.bind fun _ => (Leaves.readInt32 _).bind fun _ => .pure _
  | bool val => exact Leaves.readBool.bind fun _ => .pure _
  | pointer val => exact Leaves.readPointer.bind fun _ => .pure _
  | blob data => exact (Leaves.read _ _).bind fun _ => .pure _
  | string _ | nullString =>
    apply Leaves.readString16.bind
    intro str
    cases str with
    | none => exact .pure _
    | some str => exact (Leaves.loadText str).bind fun _ => .pure _

/-- A value that stands at the position is read, and nothing outside changes. -/
theorem readValue.reads {v : Value} (hl : Legible c.parcel)
    (henc : Encodes c.parcel.cells c.parcel.mDataPos v)
    (hin : c.parcel.mDataPos + v.encodedSize ≤ c.parcel.mDataSize)
    (hsmall : c.parcel.mDataSize ≤ 2 ^ 30) :
    wp (readValue v) (fun got c' => got = (STATUS_OK, v.expected) ∧ MovedOn c c' v.encodedSize ∧
      c'.world = c.world) E c := by
  have hleaves := readValue.leaves (R := SamePart fun w : W => w) v c
  apply wp_imp (wp_and_returned (readValue.spec v hl.readable henc hin (by omega)) hleaves)
  rintro got c' ⟨⟨hgot, hover⟩, hworld⟩
  exact ⟨hgot, hover.past, hworld⟩

/-- An object that stands at the position and is listed, or a null one, is read. -/
theorem readObject.reads (hl : Legible c.parcel)
    (hin : c.parcel.mDataPos + FLAT_SIZE ≤ c.parcel.mDataSize)
    (hbytes : window c.parcel.cells c.parcel.mDataPos FLAT_SIZE = val.toBytes)
    (hlisted : c.parcel.mDataPos ∈ retained c.parcel ∨ (val.cookie = 0 ∧ val.binder = 0)) :
    wp (readObject false) (fun r c' => r = some val ∧ MovedOn c c' FLAT_SIZE ∧ c'.world = c.world)
      E c := by
  have hdata := hl.readable.data
  have hfits := hl.readable.fits
  have hsz := hl.readable.sz_pos (n := FLAT_SIZE) (by decide)
  have hsize : c.parcel.mDataSize ≤ SIZE_MAX := by
    unfold PTRDIFF_MAX at hfits
    unfold SIZE_MAX
    omega
  have hread : wp (readObject false) _ E c :=
    readObject.listed hl.apart hl.table hin hdata hsize
  rw [hbytes, FlatBinderObject.ofBytes_toBytes] at hread
  have hmoves : wp (readObject false) (fun _ c' => MovedOn c c' FLAT_SIZE ∧ c'.world = c.world)
      (fun _ => True) c := by
    have hpast : MovedOn c (c.mapParcel (skip FLAT_SIZE)) FLAT_SIZE := ⟨rfl, rfl, rfl, rfl, hsz⟩
    unfold readObject
    rw [wp_bind, wp_thisParcel]
    dsimp only
    rw [hsz, if_pos hin, wp_bind, wp_loadData (by omega), wp_bind, wp_update]
    split
    · exact ⟨hpast, rfl⟩
    · rw [wp_bind]
      apply wp_imp (findObject.hinted _ _)
      rintro found c' ⟨n, rfl⟩
      split <;> exact ⟨⟨rfl, rfl, rfl, rfl, hsz⟩, rfl⟩
  apply wp_imp (wp_and_returned hread hmoves)
  rintro r c' ⟨hr, hpast, hworld⟩
  refine ⟨?_, hpast, hworld⟩
  rw [hr, if_pos]
  rcases hlisted with hmem | hnull
  · exact .inl hmem
  · exact .inr ⟨rfl, hnull⟩

end Parcel

end system_binder
