-- A new size for a parcel that was built locally: which objects it drops, and when it cuts one
-- in two.
import SystemBinder.ParcelLookup

open prog memory

namespace system_binder.Parcel

variable {W : Type} {c c' : Ctx W} {E : Fault → Prop}

/-! ## The listed objects -/

/-- The object at the offset `o`. -/
def flatAt (p : Parcel) (o : Nat) : FlatBinderObject := .ofBytes (window p.cells o FLAT_SIZE)

theorem flats_eq_map (p : Parcel) (i n : Nat) :
    flats p i n = (window p.table i n).map p.flatAt := rfl

theorem getElem?_retained {p : Parcel} {i : Nat} :
    (retained p)[i]? = if i < p.mObjectsSize then p.table[i]? else none :=
  List.getElem?_take

/-- The list of a table that agrees where it is used. -/
theorem retained_congr {p p' : Parcel} (hn : p'.mObjectsSize = p.mObjectsSize)
    (ht : ∀ i, i < p.mObjectsSize → p'.table[i]? = p.table[i]?) : retained p' = retained p := by
  apply List.ext_getElem?
  intro i
  rw [getElem?_retained, getElem?_retained, hn]
  split
  · rename_i hi
    exact ht i hi
  · rfl

/-- The list with one more entry. -/
theorem retained_append {p p' : Parcel} {o : Nat} (hn : p'.mObjectsSize = p.mObjectsSize + 1)
    (hroom : p.mObjectsSize ≤ p.table.length)
    (ht : ∀ i, i < p.mObjectsSize → p'.table[i]? = p.table[i]?)
    (ho : p'.table[p.mObjectsSize]? = some o) : retained p' = retained p ++ [o] := by
  have hlen : (retained p).length = p.mObjectsSize := List.length_take_of_le hroom
  have hfirst : p'.table.take p.mObjectsSize = p.table.take p.mObjectsSize := by
    apply List.ext_getElem?
    intro i
    rw [List.getElem?_take, List.getElem?_take]
    split
    · rename_i hi
      exact ht i hi
    · rfl
  unfold retained
  rw [hn, List.take_add_one, ho, hfirst]
  rfl

/-- The objects are listed in the order in which they stand, and each starts inside the data. -/
structure InOrder (p : Parcel) : Prop where
  ascending : (retained p).Pairwise (· < ·)
  inside : ∀ o ∈ retained p, o < p.mDataSize

theorem empty_inOrder : InOrder empty := ⟨List.Pairwise.nil, fun _ h => by cases h⟩

theorem InOrder.of_same {p p' : Parcel} (h : InOrder p) (hlist : retained p' = retained p)
    (hsize : p.mDataSize ≤ p'.mDataSize) : InOrder p' where
  ascending := by
    rw [hlist]
    exact h.ascending
  inside := by
    intro o ho
    rw [hlist] at ho
    exact Nat.lt_of_lt_of_le (h.inside o ho) hsize

/-! ## What a cut keeps -/

/-- In an ascending table the loop stops exactly at the entries below `desired`. -/
theorem take_keptBelow {table : List Nat} {desired n : Nat} (hn : n ≤ table.length)
    (hasc : (table.take n).Pairwise (· < ·)) :
    table.take (keptBelow table desired n) = (table.take n).filter (· < desired) := by
  induction n with
  | zero => rfl
  | succ n ih =>
    have hget : table[n]? = some table[n] := List.getElem?_eq_getElem (by omega)
    have htake : table.take (n + 1) = table.take n ++ [table[n]] := by
      rw [List.take_add_one, hget]
      rfl
    rw [htake, List.pairwise_append] at hasc
    obtain ⟨hasc, -, hlast⟩ := hasc
    unfold keptBelow
    rw [hget, Option.getD_some]
    split
    · rename_i hlt
      -- all that stand before an entry below `desired` are below it
      rw [htake]
      apply (List.filter_eq_self.mpr _).symm
      intro o ho
      rcases List.mem_append.mp ho with hbefore | hsame
      · have := hlast o hbefore _ (List.mem_singleton_self _)
        exact decide_eq_true (by omega)
      · rw [List.mem_singleton.mp hsame]
        exact decide_eq_true hlt
    · rename_i hge
      rw [ih (by omega) hasc, htake, List.filter_append, List.filter_cons,
        if_neg (by simpa using hge)]
      simp

theorem InOrder.take_kept {p : Parcel} {n : Nat} (h : InOrder p) (l : Local p) :
    p.table.take (kept p n) = (retained p).filter (· < n) := by
  have hlen : p.mObjectsSize ≤ p.table.length := by
    rw [l.table]
    exact l.objects
  unfold kept
  split
  · split
    · rename_i h0
      simp [h0]
    · exact take_keptBelow hlen h.ascending
  · rename_i hge
    apply (List.filter_eq_self.mpr _).symm
    intro o ho
    have := h.inside o ho
    exact decide_eq_true (by omega)

/-- Where a filter keeps exactly a first part, its converse keeps the rest. -/
theorem filter_rest {q : Nat → Bool} {a b : List Nat} (h : (a ++ b).filter q = a) :
    (a ++ b).filter (fun o => !q o) = b := by
  have hq : ∀ o ∈ a, q o = true := by
    intro o ho
    rw [← h] at ho
    exact (List.mem_filter.mp ho).2
  have hb : b.filter q = [] := by
    rw [List.filter_append, List.filter_eq_self.mpr hq] at h
    exact List.append_right_eq_self.mp h
  have hrest : ∀ o ∈ b, (!q o) = true := by
    intro o ho
    simpa using List.filter_eq_nil_iff.mp hb o ho
  rw [List.filter_append, List.filter_eq_self.mpr hrest, List.filter_eq_nil_iff.mpr]
  · rfl
  · intro o ho
    simp [hq o ho]

/-- What a cut drops are the objects from the new end on. -/
theorem InOrder.dropped_eq {p : Parcel} {n : Nat} (h : InOrder p) (l : Local p) :
    dropped p n = ((retained p).filter fun o => !decide (o < n)).map p.flatAt := by
  have hk := kept_le p n
  have hsplit : retained p = p.table.take (kept p n) ++
      window p.table (kept p n) (p.mObjectsSize - kept p n) := by
    unfold retained window
    rw [← List.take_add]
    congr 1
    omega
  have hkeep := h.take_kept l (n := n)
  rw [hsplit] at hkeep
  rw [hsplit, filter_rest hkeep.symm]
  rfl

/-- Each object that is no longer listed was released exactly once. -/
def Released (x : Outside W) (c c' : Ctx W) : Prop :=
  releaseAll x (((retained c.parcel).filter (· ∉ retained c'.parcel)).map c.parcel.flatAt)
    c.world = .ok ((), c'.world)

/-- `c'` is `c` with the size `n`: it lists the objects that start before the new end. -/
structure Cut (x : Outside W) (c c' : Ctx W) (n : Nat) : Prop where
  isLocal : Local c'.parcel
  size : c'.parcel.mDataSize = n
  retained : retained c'.parcel = (retained c.parcel).filter (· < n)
  released : Released x c c'

theorem released_of_retained {x : Outside W} {n : Nat}
    (hlist : retained c'.parcel = (retained c.parcel).filter (· < n))
    (hrun : releaseAll x (((retained c.parcel).filter fun o => !decide (o < n)).map
      c.parcel.flatAt) c.world = .ok ((), c'.world)) : Released x c c' := by
  have hsame : (retained c.parcel).filter (· ∉ retained c'.parcel) =
      (retained c.parcel).filter fun o => !decide (o < n) := by
    apply List.filter_congr
    intro o ho
    rw [hlist, Bool.eq_iff_iff]
    simp [ho]
  unfold Released
  rw [hsame]
  exact hrun

/-- The parcel was built locally, with its objects in order. -/
def Orderly (c : Ctx W) : Prop := Local c.parcel ∧ InOrder c.parcel

theorem Orderly.kept (h : Orderly c) (k : Kept c c') : Orderly c' :=
  ⟨k.isLocal, h.2.of_same (retained_congr k.objectsSize fun i hi => k.prepared.table i hi)
    (Nat.le_of_eq k.size.symm)⟩

/-- `Parcel_setDataSize` drops the objects from the new end on, or refuses and keeps the list. -/
theorem setDataSize.cuts {x : Outside W} {n : Nat} (ho : Orderly c) :
    wp (setDataSize x n) (fun r c' => (r = STATUS_OK → Cut x c c' n) ∧
      (r ≠ STATUS_OK → Orderly c')) (fun _ => True) c := by
  have ⟨l, h⟩ := ho
  unfold setDataSize
  simp only [wp_ite, wp_pure, wp_bind, wp_update]
  refine ⟨fun _ => ⟨fun he => absurd he (by decide), fun _ => ho⟩, fun _ => ?_⟩
  refine continueWrite.spec l (fun r c₁ hne k => ?_) (fun c₁ k hn hs _ => ?_) fun hn => ?_
  · refine ⟨fun he => absurd he hne, fun _ => ⟨fun he => absurd he hne, fun _ => ho.kept k⟩⟩
  · refine ⟨fun _ => ⟨fun _ => ?_, fun hne => absurd rfl hne⟩, fun hne => absurd rfl hne⟩
    have hsame : retained c₁.parcel = retained c.parcel :=
      retained_congr k.objectsSize fun i hi => k.prepared.table i hi
    -- every object starts before the old end, so before the new one
    have hall : (retained c.parcel).filter (· < n) = retained c.parcel := by
      apply List.filter_eq_self.mpr
      intro o ho
      have := h.inside o ho
      exact decide_eq_true (by omega)
    have hnone : (retained c.parcel).filter (fun o => !decide (o < n)) = [] := by
      apply List.filter_eq_nil_iff.mpr
      intro o ho
      have := h.inside o ho
      simp only [Bool.not_eq_true, Bool.not_eq_false', decide_eq_true_eq]
      omega
    have hlist : retained (c₁.mapParcel fun p => { p with mDataSize := n }).parcel =
        (retained c.parcel).filter (· < n) := by
      rw [hall]
      exact hsame
    refine ⟨k.isLocal.withSize ?_ hn, rfl, hlist, released_of_retained hlist ?_⟩
    · rw [k.pos]
      exact Nat.le_trans l.pos hs
    · rw [hnone]
      show Except.ok ((), c.world) = Except.ok ((), c₁.world)
      rw [k.world]
  · refine wp_of_result (fun _ w hrun c₁ s hw => ?_) fun _ _ => trivial
    refine ⟨fun _ => ⟨fun _ => ?_, fun hne => absurd rfl hne⟩, fun hne => absurd rfl hne⟩
    have hlist : retained (c₁.mapParcel fun p => { p with mDataSize := n }).parcel =
        (retained c.parcel).filter (· < n) := by
      rw [← h.take_kept l]
      show c₁.parcel.table.take c₁.parcel.mObjectsSize = _
      apply List.ext_getElem?
      intro i
      rw [s.objects, List.getElem?_take, List.getElem?_take]
      split
      · rename_i hi
        exact s.table i hi
      · rfl
    refine ⟨s.isLocal.withSize ?_ ?_, rfl, hlist, released_of_retained hlist ?_⟩
    · rw [s.pos]
      exact Nat.min_le_right _ _
    · rw [s.capacity]
      exact hn
    · rw [h.dropped_eq l] at hrun
      rw [hrun, ← hw]
      rfl

theorem Cut.inOrder {x : Outside W} {n : Nat} (h : InOrder c.parcel) (cut : Cut x c c' n) :
    InOrder c'.parcel where
  ascending := by
    rw [cut.retained]
    exact h.ascending.filter _
  inside := by
    intro o ho
    rw [cut.retained, List.mem_filter, decide_eq_true_eq] at ho
    rw [cut.size]
    exact ho.2

/-! ## Any operations -/

/-- An object is written behind the ones that are listed. -/
def Ascending : Op → Ctx W → Prop
  | .writeObject _ _, c => ∀ o ∈ retained c.parcel, o < c.parcel.mDataPos
  | _, _ => True

theorem Orderly.advanced {n : Nat} (h : Orderly c) (a : Advanced c c' n) : Orderly c' := by
  refine ⟨a.isLocal, h.2.of_same ?_ ?_⟩
  · unfold retained Parcel.table
    rw [a.objects, a.objectsSize]
  · rw [a.size]
    exact Nat.le_max_left _ _

theorem Orderly.moved (h : Orderly c) (m : Moved c.parcel c'.parcel) : Orderly c' := by
  refine ⟨h.1.moved m, h.2.of_same ?_ (Nat.le_of_eq m.size.symm)⟩
  unfold retained
  rw [m.table, m.objectsSize]

theorem Orderly.refused (h : Orderly c) (r : Refused c c') : Orderly c' :=
  ⟨r.isLocal, h.2.of_same (retained_congr r.objectsSize r.table) (Nat.le_of_eq r.size.symm)⟩

theorem Orderly.added {val : FlatBinderObject} {listed : Bool} (h : Orderly c)
    (hpos : ∀ o ∈ retained c.parcel, o < c.parcel.mDataPos) (a : Added c c' val listed) :
    Orderly c' := by
  have hsize : c.parcel.mDataSize ≤ c'.parcel.mDataSize := by
    rw [a.size]
    exact Nat.le_max_left _ _
  refine ⟨a.isLocal, ?_⟩
  cases listed with
  | false => exact h.2.of_same (retained_congr a.objects a.table) hsize
  | true =>
    have hlist : retained c'.parcel = retained c.parcel ++ [c.parcel.mDataPos] :=
      retained_append a.objects (by rw [h.1.table]; exact h.1.objects) a.table (a.entry rfl)
    refine ⟨?_, ?_⟩
    · rw [hlist, List.pairwise_append]
      refine ⟨h.2.ascending, List.pairwise_singleton _ _, fun o ho o' ho' => ?_⟩
      rw [List.mem_singleton.mp ho']
      exact hpos o ho
    · intro o ho
      rw [hlist, List.mem_append, List.mem_singleton] at ho
      rcases ho with ho | rfl
      · exact Nat.lt_of_lt_of_le (h.2.inside o ho) hsize
      · rw [a.size]
        unfold FLAT_SIZE
        omega

theorem Cut.orderly {x : Outside W} {n : Nat} (h : Orderly c) (cut : Cut x c c' n) : Orderly c' :=
  ⟨cut.isLocal, cut.inOrder h.2⟩

/-- One operation keeps the objects in order. -/
theorem runOp.orderly {x : Calls W} {o : Op} (h : Orderly c) (hs : Sensible o c)
    (ha : Ascending o c) : wp (runOp x o) (fun _ c' => Orderly c') (fun _ => True) c := by
  have l := h.1
  have hword : ∀ bs : List UInt8, 0 < bs.length → bs.length ≤ 8 →
      wp (writeAligned x.toOutside bs) (fun _ c' => Orderly c') (fun _ => True) c :=
    fun bs h0 h8 => writeAligned.spec l h0 (Nat.le_trans h8 (by decide))
      (fun _ a _ => h.advanced a) fun _ _ _ k _ => h.kept k
  have hread : ∀ {α : Type} {m : Prog (Ctx W) Fault α},
      wp m (fun _ c' => Moved c.parcel c'.parcel) (fun _ => True) c →
      wp m (fun _ c' => Orderly c') (fun _ => True) c := fun hm =>
    wp_imp hm fun _ _ => h.moved
  cases o with
  | writeInt32 val => exact (wp_bind _ _).mpr (hword _ (by simp) (by simp))
  | writeBool val => exact (wp_bind _ _).mpr (hword _ (by simp) (by simp))
  | writePointer val => exact (wp_bind _ _).mpr (hword _ (by simp) (by simp))
  | write data =>
    exact (wp_bind _ _).mpr (write.spec l (fun _ _ _ _ a _ => h.advanced a)
      fun _ _ k _ => h.kept k)
  | writeString16 str =>
    apply (wp_bind _ _).mpr
    cases str with
    | none => exact hword _ (by simp) (by simp)
    | some s =>
      obtain ⟨text, htext⟩ := hs s rfl
      exact writeString16.spec_parts htext.carries l (fun _ a _ _ => h.advanced a)
        (fun _ _ _ k _ => h.kept k) fun _ _ a k _ => (h.advanced a).kept k
  | writeObject val nullMetaData =>
    exact (wp_bind _ _).mpr (writeObject.spec l (fun _ _ _ r => h.refused r)
      (fun _ => wp_of_all (fun _ _ _ a _ => h.added ha a) fun _ => trivial)
      fun _ _ a _ => h.added ha a)
  | setDataSize size =>
    apply (wp_bind _ _).mpr
    refine wp_imp (setDataSize.cuts h) fun r c' hr => ?_
    by_cases he : r = STATUS_OK
    · exact (hr.1 he).orderly h
    · exact hr.2 he
  | setDataCapacity size =>
    apply (wp_bind _ _).mpr
    unfold Parcel.setDataCapacity
    simp only [wp_ite, wp_pure, wp_bind, wp_thisParcel]
    refine ⟨fun _ => h, fun _ => ⟨fun hlt => ?_, fun _ => h⟩⟩
    exact continueWrite.spec l (fun _ _ _ k => h.kept k) (fun _ k _ _ _ => h.kept k)
      fun hle => absurd hle (Nat.not_le_of_lt hlt)
  | setDataPosition pos =>
    have hpos : pos ≤ c.parcel.mDataSize := hs
    have hmax : pos ≤ INT32_MAX := Nat.le_trans hpos (Nat.le_trans l.size l.capacity)
    show wp (Parcel.setDataPosition pos) _ _ c
    rw [setDataPosition.spec hmax]
    exact ⟨⟨l.owner, hpos, l.size, l.capacity, l.data, l.objects, l.table, l.offsets⟩,
      h.2.of_same rfl (Nat.le_refl _)⟩
  | read r =>
    exact hread (runRead.moves x (fun _ => trivial) trivial (fun _ => trivial) r c l.readable)
  | readObject nullMetaData => exact (wp_bind _ _).mpr (hread (readObject.spec_moved l))
  | readFileDescriptor => exact (wp_bind _ _).mpr (hread (readFileDescriptor.spec_moved l))
  | readNullableStrongBinder =>
    exact (wp_bind _ _).mpr (hread (unflattenBinder.spec_moved l fun _ => trivial))
  | readStrongBinder =>
    exact (wp_bind _ _).mpr (hread (readStrongBinder.spec_moved l fun _ => trivial))

/-- Some operations, one after another. -/
def runOps (x : Calls W) : List Op → Prog (Ctx W) Fault Unit
  | [] => pure ()
  | o :: ops => do
    runOp x o
    runOps x ops

theorem runOps.orderly {x : Calls W} {ops : List Op} (h : Orderly c)
    (hs : Allowed (runOp x) (fun o d => Sensible o d ∧ Ascending o d) ops c) :
    wp (runOps x ops) (fun _ c' => Orderly c') (fun _ => True) c := by
  induction ops generalizing c with
  | nil => exact h
  | cons o ops ih =>
    obtain ⟨⟨hsens, hasc⟩, hrest⟩ := hs
    unfold runOps
    rw [wp_bind]
    refine wp_of_result (fun u c₁ hrun => ?_) fun _ _ => trivial
    exact ih ((runOp.orderly h hsens hasc).of_ok hrun) (hrest u c₁ hrun)

/-! ## The law -/

/-- Every object that is listed lies inside the data, and the others were released. -/
structure Settled (x : Outside W) (c c' : Ctx W) : Prop where
  whole : ∀ o ∈ retained c'.parcel, o + FLAT_SIZE ≤ c'.parcel.mDataSize
  released : Released x c c'

/-- A parcel with objects at increasing positions, whatever was done to it, that takes the new
size `n` lists only whole objects exactly where `n` does not fall inside one. It releases those
that it drops once each in any case. -/
theorem a_new_size_leaves_whole_objects (x : Calls W) (ops : List Op) (c c₁ c₂ : Ctx W) (n : Nat)
    (h0 : c.parcel = empty)
    (hs : Allowed (runOp x) (fun o d => Sensible o d ∧ Ascending o d) ops c)
    (hrun : runOps x ops c = .ok ((), c₁))
    (hset : setDataSize x.toOutside n c₁ = .ok (STATUS_OK, c₂)) :
    Settled x.toOutside c₁ c₂ ↔ ∀ o ∈ retained c₁.parcel, ¬(o < n ∧ n < o + FLAT_SIZE) := by
  have horderly : Orderly c₁ := by
    refine (runOps.orderly (c := c) ⟨?_, ?_⟩ hs).of_ok hrun
    · rw [h0]
      exact empty_local
    · rw [h0]
      exact empty_inOrder
  have cut := ((setDataSize.cuts horderly).of_ok hset).1 rfl
  constructor
  · rintro ⟨hwhole, -⟩ o ho ⟨hlt, hcut⟩
    have hkept : o ∈ retained c₂.parcel := by
      rw [cut.retained, List.mem_filter]
      exact ⟨ho, decide_eq_true hlt⟩
    have := hwhole o hkept
    rw [cut.size] at this
    omega
  · intro hno
    refine ⟨fun o ho => ?_, cut.released⟩
    rw [cut.retained, List.mem_filter, decide_eq_true_eq] at ho
    have := hno o ho.1
    rw [cut.size]
    omega

/-- A descriptor that the parcel owns. -/
def ownedFile : FlatBinderObject := ⟨BINDER_TYPE_FD, 0x17f, 3, 1⟩

/-- The position is behind an empty list. -/
theorem file_allowed (x : Calls Unit) (h : Heap) (w : Unit) :
    Allowed (runOp x) (fun o d => Sensible o d ∧ Ascending o d)
      [.writeObject ownedFile true, .writeInt32 5] ⟨empty, h, w⟩ := by
  refine ⟨⟨trivial, ?_⟩, fun _ _ _ => ⟨⟨trivial, trivial⟩, fun _ _ _ => trivial⟩⟩
  intro o ho
  cases ho

theorem a_new_size_behind_a_file_leaves_it_whole : ∃ c₁ c₂ : Ctx Unit,
    runOps quiet [.writeObject ownedFile true, .writeInt32 5] ⟨empty, plenty, ()⟩ = .ok ((), c₁) ∧
    setDataSize quiet.toOutside 24 c₁ = .ok (STATUS_OK, c₂) ∧ Settled quiet.toOutside c₁ c₂ := by
  obtain ⟨u, c₁, hrun, hlist, hset⟩ : ∃ (u : Unit) (c₁ : Ctx Unit),
      runOps quiet [.writeObject ownedFile true, .writeInt32 5] ⟨empty, plenty, ()⟩ = .ok (u, c₁) ∧
      retained c₁.parcel = [0] ∧
      wp (setDataSize quiet.toOutside 24) (fun r _ => r = STATUS_OK) never c₁ :=
    wp_never_iff.mp (by decide +kernel)
  obtain ⟨_, c₂, hset, rfl⟩ := wp_never_iff.mp hset
  refine ⟨c₁, c₂, hrun, hset, ?_⟩
  refine (a_new_size_leaves_whole_objects quiet _ _ c₁ c₂ 24 rfl (file_allowed _ _ _) hrun
    hset).mpr ?_
  rw [hlist]
  decide

/-- The new end falls inside the file, which stays listed. -/
theorem a_file_is_cut_in_two : ∃ c₁ c₂ : Ctx Unit,
    Allowed (runOp quiet) (fun o d => Sensible o d ∧ Ascending o d)
      [.writeObject ownedFile true, .writeInt32 5] ⟨empty, plenty, ()⟩ ∧
    runOps quiet [.writeObject ownedFile true, .writeInt32 5] ⟨empty, plenty, ()⟩ = .ok ((), c₁) ∧
    setDataSize quiet.toOutside 12 c₁ = .ok (STATUS_OK, c₂) ∧
    ¬Settled quiet.toOutside c₁ c₂ := by
  obtain ⟨u, c₁, hrun, hset⟩ : ∃ (u : Unit) (c₁ : Ctx Unit),
      runOps quiet [.writeObject ownedFile true, .writeInt32 5] ⟨empty, plenty, ()⟩ = .ok (u, c₁) ∧
      wp (setDataSize quiet.toOutside 12)
        (fun r c₂ => r = STATUS_OK ∧ 0 ∈ retained c₂.parcel ∧ c₂.parcel.mDataSize = 12) never c₁ :=
    wp_never_iff.mp (by decide +kernel)
  obtain ⟨_, c₂, hset, rfl, hlisted, hsize⟩ := wp_never_iff.mp hset
  refine ⟨c₁, c₂, file_allowed _ _ _, hrun, hset, fun h => ?_⟩
  have := h.whole 0 hlisted
  rw [hsize] at this
  exact absurd this (by decide)

end system_binder.Parcel
