-- The references that a parcel has on binders over its life: those on the binders of the process
-- come and go with their objects, and those on proxies stay.
import SystemBinder.BinderTravel

open prog memory

namespace system_binder.Parcel

open Process (Totals Has once)
open ParcelProcess (Sendable Changed FlatOf dues back)

/-! ## The account -/

/-- The objects that a parcel lists, each with its offset, and all that it ever listed. -/
structure Ledger where
  size : Nat
  listed : List (Nat × BitVec 64)
  ever : List (BitVec 64)

/-- What is done to a parcel. -/
inductive Edit
  | item (item : Item)
  | setDataSize (n : Nat)
  | freeData

namespace Ledger

def empty : Ledger := ⟨0, [], []⟩

def after (w : ParcelProcess) (m : Ledger) : Edit → Ledger
  | .item item =>
    { size := m.size + item.encodedSize
      listed := m.listed ++ (item.objects w).map fun b => (m.size, b)
      ever := m.ever ++ item.objects w }
  | .setDataSize n => { m with size := n, listed := m.listed.filter fun e => decide (e.1 < n) }
  | .freeData => { m with size := 0, listed := [] }

def afterAll (w : ParcelProcess) (m : Ledger) (edits : List Edit) : Ledger := edits.foldl (after w) m

/-- One for each object that is listed, if the binder is of this process. If it is a proxy, two for
each that ever was. -/
def references (w : ParcelProcess) (m : Ledger) (a : Nat) : Nat :=
  match (w.process.objects a).binder_handle with
  | none => m.listed.countP fun e => e.2.toNat == a
  | some _ => 2 * m.ever.countP fun b => b.toNat == a

end Ledger

section Runs

variable {W : Type} (x : Calls W)

def runEdit : Edit → Prog (Ctx W) Fault Unit
  | .item item => do
    let _ ← writeItem x item
    pure ()
  | .setDataSize n => do
    let _ ← setDataSize x.toOutside n
    pure ()
  | .freeData => freeData x.toOutside

def runEdits : List Edit → Prog (Ctx W) Fault Unit
  | [] => pure ()
  | edit :: edits => do
    runEdit x edit
    runEdits edits

end Runs

/-- An item has room. A size is no larger than the parcel, and cuts through no object. -/
def Edit.HasRoom (m : Ledger) : Edit → Prop
  | .item it => m.size + it.encodedSize ≤ 2 ^ 30
  | .setDataSize n => n ≤ m.size ∧ ∀ e ∈ m.listed, e.1 < n → e.1 + FLAT_SIZE ≤ n
  | .freeData => True

/-- Each edit has room where it is done. -/
def AllRoom (w : ParcelProcess) : Ledger → List Edit → Prop
  | _, [] => True
  | m, edit :: edits => edit.HasRoom m ∧ AllRoom w (m.after w edit) edits

instance decidableHasRoom (m : Ledger) : (edit : Edit) → Decidable (edit.HasRoom m)
  | .item it => inferInstanceAs (Decidable (m.size + it.encodedSize ≤ 2 ^ 30))
  | .setDataSize n => inferInstanceAs (Decidable (n ≤ m.size ∧
      ∀ e ∈ m.listed, e.1 < n → e.1 + FLAT_SIZE ≤ n))
  | .freeData => .isTrue trivial

instance decidableAllRoom (w : ParcelProcess) : (m : Ledger) → (edits : List Edit) →
    Decidable (AllRoom w m edits)
  | _, [] => .isTrue trivial
  | m, edit :: edits =>
    have := decidableAllRoom w (m.after w edit) edits
    inferInstanceAs (Decidable (edit.HasRoom m ∧ AllRoom w (m.after w edit) edits))

variable {w w' : ParcelProcess} {t t' : Totals} {k : Process.Knot} {o : ParcelEnv} {m : Ledger}
  {c c' : Ctx ParcelProcess} {E : Fault → Prop} {b : BitVec 64}

/-! ### What an edit changes of it -/

/-- What is given back for the objects of some binders. -/
def givenBack (w : ParcelProcess) (bs : List (BitVec 64)) (a : Nat) : Nat :=
  (bs.map fun b => back w b * once b.toNat a).sum

theorem givenBack_cons (b : BitVec 64) (bs : List (BitVec 64)) (a : Nat) :
    givenBack w (b :: bs) a = back w b * once b.toNat a + givenBack w bs a := by
  simp [givenBack]

theorem givenBack_local {bs : List (BitVec 64)} {a : Nat}
    (h : (w.process.objects a).binder_handle = none) :
    givenBack w bs a = bs.countP fun b => b.toNat == a := by
  induction bs with
  | nil => rfl
  | cons b bs ih =>
    rw [givenBack_cons, ih, List.countP_cons, Nat.add_comm]
    unfold back once
    by_cases hb : b.toNat = a
    · simp [hb, h]
    · simp [hb, Ne.symm hb]

theorem givenBack_proxy {bs : List (BitVec 64)} {a : Nat} {handle : BitVec 32}
    (h : (w.process.objects a).binder_handle = some handle) : givenBack w bs a = 0 := by
  induction bs with
  | nil => rfl
  | cons b bs ih =>
    rw [givenBack_cons, ih]
    unfold back once
    by_cases hb : b.toNat = a
    · simp [hb, h]
    · simp [Ne.symm hb]

theorem references_item (item : Item) (a : Nat) :
    (m.after w (.item item)).references w a = m.references w a + item.taken w a := by
  cases item with
  | value v => simp [Ledger.after, Ledger.references, Item.objects, Item.taken]
  | nullBinder => simp [Ledger.after, Ledger.references, Item.objects, Item.taken]
  | binder b =>
    show _ = m.references w a + dues w b * once b.toNat a
    by_cases hdues : dues w b = 0
    · simp [Ledger.after, Ledger.references, Item.objects_of_none hdues, hdues]
    · simp only [Ledger.after, Ledger.references, Item.objects_of_some hdues, List.map_cons,
        List.map_nil, List.countP_append, List.countP_singleton]
      by_cases hb : b.toNat = a
      · subst hb
        unfold dues at hdues ⊢
        cases hhandle : (w.process.objects b.toNat).binder_handle with
        | none => simp
        | some handle =>
          have hne : handle ≠ 0 := by
            rintro rfl
            exact hdues (by rw [hhandle]; rfl)
          dsimp only
          rw [if_neg hne, Process.once_self, Nat.mul_add, beq_self_eq_true, if_pos rfl]
      · have hno : once b.toNat a = 0 := if_neg fun h => hb h.symm
        simp [hb, hno]

theorem references_setDataSize (n a : Nat) :
    m.references w a = (m.after w (.setDataSize n)).references w a +
      givenBack w ((m.listed.filter fun e => !decide (e.1 < n)).map Prod.snd) a := by
  unfold Ledger.references Ledger.after
  dsimp only
  cases h : (w.process.objects a).binder_handle with
  | some handle => rw [givenBack_proxy h, Nat.add_zero]
  | none =>
    dsimp only
    rw [givenBack_local h, List.countP_map,
      List.countP_eq_countP_filter_add m.listed _ fun e => decide (e.1 < n)]
    rfl

theorem references_freeData (a : Nat) :
    m.references w a = (m.after w .freeData).references w a +
      givenBack w (m.listed.map Prod.snd) a := by
  unfold Ledger.references Ledger.after
  cases h : (w.process.objects a).binder_handle with
  | some handle => rw [givenBack_proxy h, Nat.add_zero]
  | none =>
    dsimp only
    rw [givenBack_local h, List.countP_map]
    simp
    rfl

/-- An edit takes at most two references on a binder. -/
theorem references_after_le (edit : Edit) (a : Nat) :
    (m.after w edit).references w a ≤ m.references w a + 2 := by
  cases edit with
  | item it =>
    rw [references_item]
    have := Item.taken_le (w := w) it a
    omega
  | setDataSize n =>
    rw [references_setDataSize (m := m) (w := w) n a]
    omega
  | freeData =>
    rw [references_freeData (m := m) (w := w) a]
    omega

/-! ## Objects are released -/

/-- The object at an offset is that of the binder, and no null one. -/
def ObjectAt (w : ParcelProcess) (p : Parcel) (e : Nat × BitVec 64) : Prop :=
  FlatOf w e.2 (p.flatAt e.1) ∧ (p.flatAt e.1).binder ≠ 0

theorem ObjectAt.changed {p : Parcel} {e : Nat × BitVec 64} (h : ObjectAt w p e)
    (hc : Changed t' w w') : ObjectAt w' p e := ⟨h.1.changed hc, h.2⟩

theorem givenBack_changed (hc : Changed t' w w') (bs : List (BitVec 64)) :
    givenBack w' bs = givenBack w bs := by
  funext a
  unfold givenBack back
  simp only [hc.handle]

/-- Objects that are released give back what they can. -/
theorem releaseAll.gives_back {p : Parcel} {l : List (Nat × BitVec 64)} {f : Nat → Nat}
    (hobjects : ∀ e ∈ l, ObjectAt w p e) (hs : ∀ e ∈ l, Sendable t w e.2)
    (hhas : Has (t.more fun a => f a + givenBack w (l.map Prod.snd) a) w.process)
    (hroom : ∀ a, t.strong a + (f a + givenBack w (l.map Prod.snd) a) + t.weak a + 2 < 2 ^ 20) :
    wp (releaseAll (ParcelProcess.calls k o).toOutside (l.map fun e => p.flatAt e.1))
      (fun _ w' => Changed (t.more f) w w') E w := by
  induction l generalizing w with
  | nil => exact .refl hhas
  | cons e l ih =>
    obtain ⟨hobj, hne⟩ := hobjects e (by simp)
    have hfirst := hs e (by simp)
    have hsplit : ∀ a, f a + givenBack w ((e :: l).map Prod.snd) a =
        (f a + givenBack w (l.map Prod.snd) a) + back w e.2 * once e.2.toNat a := by
      intro a
      rw [List.map_cons, givenBack_cons]
      omega
    simp only [hsplit] at hhas hroom
    have hroom₁ := hroom e.2.toNat
    rw [List.map_cons]
    unfold releaseAll
    rw [wp_bind]
    apply wp_imp (ParcelProcess.release_object.spec hfirst hhas (by omega) hobj hne)
    intro _ w₁ hc₁
    have hlater : ∀ e ∈ l, Sendable t w₁ e.2 := fun e he => (hs e (by simp [he])).still hc₁
    have hhas₁ := hc₁.counts.has
    rw [← givenBack_changed hc₁] at hhas₁ hroom
    apply wp_imp (ih (fun e he => (hobjects e (by simp [he])).changed hc₁) hlater hhas₁ fun a => by
      have := hroom a
      omega)
    intro _ w₂ hc₂
    exact hc₁.trans hc₂

/-! ## What holds between the account and the parcel -/

/-- The parcel lists what the account says, and its process has the references that the account
says more than at the start, where the binders had `t`. -/
structure Accounted (t : Totals) (w : ParcelProcess) (m : Ledger) (c : Ctx ParcelProcess) :
    Prop where
  tidy : Tidy c.parcel
  ample : Ample c.heap
  error : c.parcel.mError = STATUS_OK
  pos : c.parcel.mDataPos = m.size
  listed : retained c.parcel = m.listed.map Prod.fst
  objects : ∀ e ∈ m.listed, ObjectAt c.world c.parcel e
  sendable : ∀ e ∈ m.listed, Sendable t w e.2
  changed : Changed (t.more (m.references w)) w c.world

theorem Item.objects_changed (hc : Changed t' w w') (it : Item) : it.objects w' = it.objects w := by
  cases it with
  | binder b =>
    show (if dues w' b = 0 then [] else [b]) = if dues w b = 0 then [] else [b]
    rw [hc.dues]
  | value v => rfl
  | nullBinder => rfl

/-- The object of a binder that is listed stands where it was written. -/
theorem StandsAt.objectAt {it : Item} {p : Parcel} {pos : Nat} (h : StandsAt w p pos it) :
    ∀ b ∈ it.objects w, ObjectAt w p (pos, b) := by
  intro b hb
  cases it with
  | value v => cases hb
  | nullBinder => cases hb
  | binder b' =>
    by_cases hdues : dues w b' = 0
    · rw [Item.objects_of_none hdues] at hb
      cases hb
    · rw [Item.objects_of_some hdues, List.mem_singleton] at hb
      subst hb
      obtain ⟨obj, hobj, hbytes, -⟩ := h.object
      have hflat : p.flatAt pos = obj := by
        unfold flatAt
        rw [hbytes, FlatBinderObject.ofBytes_toBytes]
      refine ⟨by rw [hflat]; exact hobj, ?_⟩
      rw [hflat]
      exact fun hzero => hdues (hobj.dues_eq_zero_iff.mpr hzero)

theorem Item.Fits.sendable {it : Item} (h : it.Fits t w) : ∀ b ∈ it.objects w, Sendable t w b := by
  intro b hb
  cases it with
  | value v => cases hb
  | nullBinder => cases hb
  | binder b' =>
    unfold Item.objects at hb
    dsimp only at hb
    split at hb
    · cases hb
    · rw [List.mem_singleton] at hb
      subst hb
      exact h

theorem writeItem.accounted {it : Item} (h : Accounted t w m c)
    (hfit : m.size + it.encodedSize ≤ 2 ^ 30) (hit : it.Fits t w)
    (hroom : ∀ a, t.strong a + m.references w a + t.weak a + 3 < 2 ^ 20) :
    wp (writeItem (ParcelProcess.calls k o) it)
      (fun _ c' => Accounted t w (m.after w (.item it)) c') E c := by
  have hpos := h.pos
  apply wp_imp (writeItem.writes h.tidy h.ample h.error (by omega) (hit.changed h.changed)
    h.changed.counts.has fun a => hroom a)
  rintro r c' ⟨hr, hlonger, hstands, hc⟩
  rw [Item.objects_changed h.changed] at hlonger
  have hreferences : (m.after w (.item it)).references w =
      fun a => m.references w a + it.taken w a := funext (references_item it)
  rw [Totals.more_more, Item.taken_changed h.changed, ← hreferences] at hc
  have hchanged := h.changed.trans hc
  refine ⟨hlonger.tidy, hlonger.ample h.ample, hlonger.error.trans h.error, ?_, ?_, ?_, ?_,
    hchanged⟩
  · rw [hlonger.pos, hpos]
    rfl
  · rw [hlonger.retained, h.listed, hpos]
    simp [Ledger.after]
  · intro e he
    rcases List.mem_append.mp he with hold | hnew
    · have hmem : e.1 ∈ retained c.parcel := by
        rw [h.listed]
        exact List.mem_map_of_mem hold
      have hin := (List.pairwise_append.mp h.tidy.apart).2.2 e.1 hmem _ (List.mem_singleton_self _)
      have hflat : c'.parcel.flatAt e.1 = c.parcel.flatAt e.1 := by
        unfold flatAt
        rw [hlonger.before _ _ hin]
      have hobject := (h.objects e hold).changed hc
      unfold ObjectAt at hobject ⊢
      rwa [hflat]
    · obtain ⟨b, hb, rfl⟩ := List.mem_map.mp hnew
      rw [← hpos]
      apply hstands.objectAt
      rwa [Item.objects_changed hchanged]
  · intro e he
    rcases List.mem_append.mp he with hold | hnew
    · exact h.sendable e hold
    · obtain ⟨b, hb, rfl⟩ := List.mem_map.mp hnew
      exact hit.sendable b hb

theorem setDataSize.accounted {n : Nat} (h : Accounted t w m c)
    (hroom : (Edit.setDataSize n).HasRoom m)
    (hsmall : ∀ a, t.strong a + m.references w a + t.weak a + 3 < 2 ^ 20) :
    wp (setDataSize (ParcelProcess.calls k o).toOutside n)
      (fun _ c' => Accounted t w (m.after w (.setDataSize n)) c') E c := by
  obtain ⟨hn, hwhole⟩ := hroom
  have hpos := h.pos
  have hcounts := references_setDataSize (m := m) (w := w) n
  have hhas := h.changed.counts.has
  rw [funext hcounts] at hhas
  simp only [hcounts] at hsmall
  rw [← givenBack_changed h.changed] at hhas hsmall
  have hdropped : (((retained c.parcel).filter fun e => !decide (e < n)).map c.parcel.flatAt) =
      (m.listed.filter fun e => !decide (e.1 < n)).map fun e => c.parcel.flatAt e.1 := by
    rw [h.listed, List.filter_map, List.map_map]
    rfl
  have hrelease := releaseAll.gives_back (E := fun e => E (.inCall e)) (k := k) (o := o)
    (p := c.parcel) (l := m.listed.filter fun e => !decide (e.1 < n))
    (fun e he => h.objects e (List.mem_filter.mp he).1)
    (fun e he => (h.sendable e (List.mem_filter.mp he).1).still h.changed) hhas
    fun a => by
      have := hsmall a
      omega
  rw [← hdropped] at hrelease
  have hwhole' : ∀ e ∈ retained c.parcel, e < n → e + FLAT_SIZE ≤ n := by
    intro e he
    rw [h.listed] at he
    obtain ⟨entry, hmem, rfl⟩ := List.mem_map.mp he
    exact hwhole entry hmem
  apply wp_imp (setDataSize.cutsAt h.tidy h.ample (by omega) hwhole' hrelease)
  rintro r c' ⟨hr, hc, hcut⟩
  refine ⟨hcut.tidy, ?_, hcut.error.trans h.error, hcut.pos, ?_, ?_, ?_, h.changed.trans hc⟩
  · unfold Ample
    rw [hcut.fresh]
    exact h.ample
  · rw [hcut.retained, h.listed, List.filter_map]
    rfl
  · intro e he
    obtain ⟨hmem, hlt⟩ := List.mem_filter.mp he
    have hin := hwhole e hmem (of_decide_eq_true hlt)
    have hflat : c'.parcel.flatAt e.1 = c.parcel.flatAt e.1 := by
      unfold flatAt
      rw [hcut.before _ _ hin]
    have hobject := (h.objects e hmem).changed hc
    unfold ObjectAt at hobject ⊢
    rwa [hflat]
  · exact fun e he => h.sendable e (List.mem_filter.mp he).1

theorem tidy_empty : Tidy empty := by
  refine ⟨empty_local, rfl, ?_⟩
  show Apart ([] ++ [0])
  decide

theorem freeData.accounted (h : Accounted t w m c)
    (hsmall : ∀ a, t.strong a + m.references w a + t.weak a + 3 < 2 ^ 20) :
    wp (freeData (ParcelProcess.calls k o).toOutside)
      (fun _ c' => Accounted t w (m.after w .freeData) c') E c := by
  have hcounts : ∀ a, m.references w a = (m.after w .freeData).references w a +
      givenBack w (m.listed.reverse.map Prod.snd) a := by
    intro a
    rw [references_freeData (m := m) (w := w) a, List.map_reverse]
    unfold givenBack
    rw [List.map_reverse, List.sum_reverse]
  have hhas := h.changed.counts.has
  rw [funext hcounts] at hhas
  simp only [hcounts] at hsmall
  rw [← givenBack_changed h.changed] at hhas hsmall
  have hobjects : ((retained c.parcel).map c.parcel.flatAt).reverse =
      m.listed.reverse.map fun e => c.parcel.flatAt e.1 := by
    rw [h.listed, List.map_map, List.map_reverse]
    rfl
  have hrelease := releaseAll.gives_back (E := fun e => E (.inCall e)) (k := k) (o := o)
    (p := c.parcel) (l := m.listed.reverse)
    (fun e he => h.objects e (List.mem_reverse.mp he))
    (fun e he => (h.sendable e (List.mem_reverse.mp he)).still h.changed) hhas
    fun a => by
      have := hsmall a
      omega
  rw [← hobjects] at hrelease
  apply wp_imp (freeData.frees h.tidy.isLocal hrelease)
  rintro _ c' ⟨hc, hempty, hfresh⟩
  refine ⟨by rw [hempty]; exact tidy_empty, ?_, by rw [hempty]; rfl, by rw [hempty]; rfl,
    by rw [hempty]; rfl, ?_, ?_, h.changed.trans hc⟩
  · unfold Ample
    rw [hfresh]
    exact h.ample
  · exact fun _ he => absurd he List.not_mem_nil
  · exact fun _ he => absurd he List.not_mem_nil

/-- An edit with room keeps the account. -/
theorem runEdit.accounted {edit : Edit} (h : Accounted t w m c) (hroom : edit.HasRoom m)
    (hit : ∀ it, edit = .item it → it.Fits t w)
    (hsmall : ∀ a, t.strong a + m.references w a + t.weak a + 3 < 2 ^ 20) :
    wp (runEdit (ParcelProcess.calls k o) edit)
      (fun _ c' => Accounted t w (m.after w edit) c') E c := by
  unfold runEdit
  cases edit with
  | item it =>
    rw [wp_bind]
    exact wp_imp (writeItem.accounted h hroom (hit it rfl) hsmall) fun _ _ hc => hc
  | setDataSize n =>
    rw [wp_bind]
    exact wp_imp (setDataSize.accounted h hroom hsmall) fun _ _ hc => hc
  | freeData => exact freeData.accounted h hsmall

/-- So do any edits. -/
theorem runEdits.accounted {edits : List Edit} (h : Accounted t w m c)
    (hroom : AllRoom w m edits) (hits : ∀ it, .item it ∈ edits → it.Fits t w)
    (hsmall : ∀ a, t.strong a + m.references w a + t.weak a + 2 * edits.length + 1 < 2 ^ 20) :
    wp (runEdits (ParcelProcess.calls k o) edits)
      (fun _ c' => Accounted t w (m.afterAll w edits) c') E c := by
  induction edits generalizing m c with
  | nil => exact h
  | cons edit edits ih =>
    simp only [List.length_cons] at hsmall
    unfold runEdits
    rw [wp_bind]
    apply wp_imp (runEdit.accounted h hroom.1 (fun it hit => hits it (by simp [hit])) fun a => by
      have := hsmall a
      omega)
    intro _ c₁ h₁
    apply ih h₁ hroom.2 (fun it hit => hits it (by simp [hit]))
    intro a
    have hleft := hsmall a
    have htwo := references_after_le (m := m) (w := w) edit a
    omega

/-- Through any appends of values and binders, cuts between the objects, and frees of a parcel, an
object of this process has as many references more than at the start as the parcel lists its
objects. A proxy has two more for each object of it that the parcel ever listed, whether it lists
it still or not: they are never given back. -/
theorem a_parcel_gives_back_what_it_took_on_its_own_binders (k : Process.Knot) (o : ParcelEnv)
    (c : Ctx ParcelProcess) (t : Totals) (edits : List Edit) (ha : Ample c.heap)
    (hhas : Has t c.world.process) (hits : ∀ it, .item it ∈ edits → it.Fits t c.world)
    (hroom : AllRoom c.world .empty edits)
    (hsmall : ∀ a, t.strong a + t.weak a + 2 * edits.length + 1 < 2 ^ 20) :
    ∃ c', (do
        initState
        runEdits (ParcelProcess.calls k o) edits) c = .ok ((), c') ∧
      retained c'.parcel = ((Ledger.afterAll c.world .empty edits).listed.map Prod.fst) ∧
      ∀ a, Process.strongCount (c'.world.process.objects a).refs =
        Process.strongCount (c.world.process.objects a).refs +
          (Ledger.afterAll c.world .empty edits).references c.world a := by
  have hnone : ∀ a, Ledger.empty.references c.world a = 0 := by
    intro a
    unfold Ledger.references
    cases (c.world.process.objects a).binder_handle <;> rfl
  have hstart : Accounted t c.world .empty (c.mapParcel fun _ => empty) := by
    refine ⟨tidy_empty, ha, rfl, rfl, rfl, fun _ he => absurd he List.not_mem_nil,
      fun _ he => absurd he List.not_mem_nil, ?_⟩
    rw [funext hnone]
    exact .refl hhas
  have hrun : wp (do
      initState
      runEdits (ParcelProcess.calls k o) edits)
      (fun _ c' => Accounted t c.world (Ledger.afterAll c.world .empty edits) c') never c := by
    unfold initState
    rw [wp_bind, wp_update]
    apply runEdits.accounted hstart hroom hits
    intro a
    have := hsmall a
    rw [hnone]
    omega
  obtain ⟨_, c', hc', h⟩ := wp_never_iff.mp hrun
  refine ⟨c', hc', h.listed, fun a => ?_⟩
  rw [h.changed.counts.has.strongCount, hhas.strongCount, Totals.strong_more]

theorem a_parcel_gives_back_what_it_took_on_one_of_two_binders : ∃ c',
    (do
        initState
        runEdits (ParcelProcess.calls (Process.knot 0) quietEnv)
          [.item (.binder 4096), .item (.binder 8192), .setDataSize 28, .item (.binder 4096),
            .freeData]) ⟨empty, plenty, twoBinders⟩ = .ok ((), c') ∧
      retained c'.parcel = [] ∧
      Process.strongCount (c'.world.process.objects 4096).refs = 1 ∧
      Process.strongCount (c'.world.process.objects 8192).refs = 3 := by
  obtain ⟨c', hrun, hlisted, hcounts⟩ := a_parcel_gives_back_what_it_took_on_its_own_binders
    (Process.knot 0) quietEnv ⟨empty, plenty, twoBinders⟩ twoTotals
    [.item (.binder 4096), .item (.binder 8192), .setDataSize 28, .item (.binder 4096), .freeData]
    (fun _ h => by cases h) twoTotals_has
    (by
      intro it hmem
      simp only [List.mem_cons, List.not_mem_nil, or_false, Edit.item.injEq, reduceCtorEq,
        false_or] at hmem
      rcases hmem with rfl | rfl | rfl
      · exact twoBinders_first
      · exact twoBinders_second
      · exact twoBinders_first)
    (by decide)
    (by
      intro a
      show heldOnce a + 0 + 2 * 5 + 1 < 2 ^ 20
      unfold heldOnce
      split <;> decide)
  exact ⟨c', hrun, hlisted, hcounts 4096, hcounts 8192⟩

end system_binder.Parcel
