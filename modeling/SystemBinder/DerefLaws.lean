-- Every deref that was put off is performed once: two queues, of which the first goes first, and
-- the loops that work them off. What a destructor puts off into a full vector is stored outside of
-- it where the allocator refuses, and only there.
import SystemBinder.PendingDerefs

open prog

namespace system_binder

/-! ## The vector as a queue -/

namespace VectorBase

variable {α : Type} {v v' : VectorBase α}

/-- The storage has room for the items, and for more than none. -/
structure Stored (v : VectorBase α) : Prop where
  capacity_pos : 0 < v.capacity
  capacity_le : v.capacity ≤ INT32_MAX
  total_le : v.total ≤ v.capacity

theorem Stored.ctor : (ctor : VectorBase α).Stored := by
  refine ⟨?_, ?_, ?_⟩ <;> simp [VectorBase.ctor, VECTOR_INIT_CAPACITY, INT32_MAX, total]

theorem asInt_double {n : Int} (h0 : 0 < n) (h : n ≤ INT32_MAX) :
    (n < 2 ^ 30 ∧ asInt (n * 2) = n * 2) ∨ (2 ^ 30 ≤ n ∧ asInt (n * 2) < 0) := by
  unfold INT32_MAX at h
  by_cases hsmall : n < 2 ^ 30
  · exact .inl ⟨hsmall, asInt_of_small (by omega) (by omega)⟩
  · refine .inr ⟨not_lt.mp hsmall, ?_⟩
    have hwrap : asInt (n * 2) = n * 2 - 2 ^ 32 := by
      unfold asInt
      rw [BitVec.toInt_ofInt, Int.bmod_def]
      omega
    omega

/-- A push has room, or the memory to double it within an `int`. -/
def HasRoom (granted : Bool) (v : VectorBase α) : Prop :=
  v.total < v.capacity ∨ (granted = true ∧ v.capacity < 2 ^ 30)

theorem Stored.hasRoom_of_granted {granted : Bool} (hv : v.Stored) (hgranted : granted = true)
    (hfew : v.total < 2 ^ 30) : v.HasRoom granted := by
  rcases Int.lt_or_eq_of_le hv.total_le with hroom | hfull
  · exact .inl hroom
  · exact .inr ⟨hgranted, by omega⟩

/-- A push goes into the room that there is or doubles it, and is stored outside where there is
none. -/
theorem Stored.add_cases (value : α) (granted : Bool) (hv : v.Stored) :
    (v.HasRoom granted ∧ ∃ capacity, v.add value granted = .ok ⟨v.m_items ++ [value], capacity⟩ ∧
      (⟨v.m_items ++ [value], capacity⟩ : VectorBase α).Stored) ∨
    (¬v.HasRoom granted ∧ v.add value granted = .error .storeOutside) := by
  have hpos := hv.capacity_pos
  have hle := hv.capacity_le
  have htotal : ∀ capacity, (⟨v.m_items ++ [value], capacity⟩ : VectorBase α).total =
      v.total + 1 := by
    intro capacity
    simp [total]
  obtain hroom | hfull := Int.lt_or_eq_of_le hv.total_le
  · refine .inl ⟨.inl hroom, v.capacity, ?_, hpos, hle, ?_⟩
    · have hnotfull : v.capacity ≠ v.total := by omega
      unfold add
      rw [if_neg hnotfull, if_pos hroom]
    · rw [htotal]
      exact hroom
  have hresized : v.add value granted = if (v.resize (asInt (v.capacity * 2)) granted).2.total <
      (v.resize (asInt (v.capacity * 2)) granted).2.capacity
      then .ok { (v.resize (asInt (v.capacity * 2)) granted).2 with m_items :=
        (v.resize (asInt (v.capacity * 2)) granted).2.m_items ++ [value] }
      else .error .storeOutside := by
    unfold add
    rw [if_pos hfull.symm]
  have hdouble := asInt_double hpos hle
  by_cases hgrows : granted = true ∧ v.capacity < 2 ^ 30
  · obtain ⟨-, hdouble⟩ : v.capacity < 2 ^ 30 ∧ asInt (v.capacity * 2) = v.capacity * 2 := by
      omega
    have hresize : (v.resize (asInt (v.capacity * 2)) granted).2 =
        ⟨v.m_items, v.capacity * 2⟩ := by
      unfold resize
      rw [hdouble, if_pos ⟨hgrows.1, by omega⟩]
    rw [hresized, hresize]
    refine .inl ⟨.inr hgrows, v.capacity * 2, if_pos ?_, ?_, ?_, ?_⟩
    · unfold total at hfull ⊢
      dsimp only
      omega
    · dsimp only
      omega
    · unfold INT32_MAX
      dsimp only
      omega
    · rw [htotal]
      dsimp only
      omega
  · have hresize : (v.resize (asInt (v.capacity * 2)) granted).2 = v := by
      have hrefused : ¬(granted = true ∧ 0 ≤ asInt (v.capacity * 2)) := by
        rintro ⟨hgranted, hnonneg⟩
        exact hgrows ⟨hgranted, by omega⟩
      unfold resize
      rw [if_neg hrefused]
    rw [hresized, hresize]
    refine .inr ⟨fun hroom => ?_, if_neg (by omega)⟩
    rcases hroom with hroom | hgrows'
    · omega
    · exact hgrows hgrows'

/-- The first item goes, whatever the allocator answers where the storage shrinks. -/
theorem Stored.delete_first {value : α} {rest : List α} (granted : Bool) (hv : v.Stored)
    (h : v.m_items = value :: rest) : v.get 0 = some value ∧
      (v.delete 0 granted).2.m_items = rest ∧ (v.delete 0 granted).2.Stored := by
  have htotal : v.total = rest.length + 1 := by simp [total, h]
  have hle := hv.total_le
  have hpos := hv.capacity_pos
  have hmax := hv.capacity_le
  have hdelete : (v.delete 0 granted).2 =
      if 0 < (rest.length : Int) ∧ (rest.length : Int) = v.capacity.tdiv 4 then
        ((⟨rest, v.capacity⟩ : VectorBase α).resize (v.capacity.tdiv 2) granted).2
      else ⟨rest, v.capacity⟩ := by
    unfold delete
    rw [if_neg (by omega), h]
    rfl
  have hfour : v.capacity.tdiv 4 = v.capacity / 4 := Int.tdiv_eq_ediv_of_nonneg (by omega)
  have htwo : v.capacity.tdiv 2 = v.capacity / 2 := Int.tdiv_eq_ediv_of_nonneg (by omega)
  have hstays : (⟨rest, v.capacity⟩ : VectorBase α).Stored := by
    refine ⟨hpos, hmax, ?_⟩
    unfold total
    dsimp only
    omega
  refine ⟨by simp [get, h], ?_⟩
  rw [hdelete]
  split
  · rename_i hquarter
    rw [hfour] at hquarter
    refine ⟨resize_items _, ?_⟩
    unfold resize
    split
    · refine ⟨?_, ?_, ?_⟩
      · dsimp only
        omega
      · dsimp only
        omega
      · unfold total
        dsimp only
        omega
    · exact hstays
  · exact ⟨rfl, hstays⟩

end VectorBase

namespace IPCThreadState

variable {W : Type}

/-! ## Two queues -/

def Deref.refs : Deref → Option (BitVec 64)
  | .weak refs => some refs
  | .strong _ => none

def Deref.obj : Deref → Option (BitVec 64)
  | .weak _ => none
  | .strong obj => some obj

/-- The weak references among the derefs. -/
def weakOf (derefs : List Deref) : List (BitVec 64) := derefs.filterMap Deref.refs

/-- The binders among the derefs. -/
def strongOf (derefs : List Deref) : List (BitVec 64) := derefs.filterMap Deref.obj

@[simp] theorem weakOf_append (ds ds' : List Deref) :
    weakOf (ds ++ ds') = weakOf ds ++ weakOf ds' :=
  List.filterMap_append

@[simp] theorem strongOf_append (ds ds' : List Deref) :
    strongOf (ds ++ ds') = strongOf ds ++ strongOf ds' := List.filterMap_append

theorem length_kinds (ds : List Deref) : (weakOf ds).length + (strongOf ds).length = ds.length := by
  induction ds with
  | nil => rfl
  | cons d ds ih =>
    cases d with
    | weak refs | strong obj =>
      simp only [weakOf, strongOf, List.filterMap_cons, Deref.refs, Deref.obj,
        List.length_cons] at ih ⊢
      omega

/-- What is pending, whatever storage it is in. -/
structure Queues (W : Type) where
  weak : List (BitVec 64)
  strong : List (BitVec 64)
  world : W

def Callees.call (x : Callees W) : Deref → W → List Push × W
  | .weak refs => x.decWeak refs
  | .strong obj => x.decStrong obj

/-- The derefs of `order` one after the other: what they put off, and what becomes of everything
else. -/
def performed (x : Callees W) : List Deref → W → List Deref × W
  | [], w => ([], w)
  | deref :: order, w =>
    let (pushes, w) := x.call deref w
    let (put, w) := performed x order w
    (pushes.map Push.deref ++ put, w)

theorem performed_append (x : Callees W) (order order' : List Deref) (w : W) :
    performed x (order ++ order') w =
      ((performed x order w).1 ++ (performed x order' (performed x order w).2).1,
        (performed x order' (performed x order w).2).2) := by
  induction order generalizing w with
  | nil => rfl
  | cons deref order ih =>
    simp only [performed, List.cons_append, ih, List.append_assoc]

namespace Queues

variable {x : Callees W} {q q₀ : Queues W} {done : List Deref} {n k : Nat}

/-- More is put off. -/
def add (derefs : List Deref) (q : Queues W) : Queues W :=
  { q with
    weak := q.weak ++ weakOf derefs
    strong := q.strong ++ strongOf derefs }

/-- One deref is performed. -/
def perform (callee : W → List Push × W) (q : Queues W) : Queues W :=
  Queues.add ((callee q.world).1.map Push.deref) { q with world := (callee q.world).2 }

/-- The first weak reference, or the first binder where no weak reference is pending. -/
def first (q : Queues W) : Option Deref :=
  match q.weak, q.strong with
  | refs :: _, _ => some (.weak refs)
  | [], obj :: _ => some (.strong obj)
  | [], [] => none

/-- The first deref is performed. -/
def turn (x : Callees W) (q : Queues W) : Queues W :=
  match q.weak, q.strong with
  | refs :: rest, _ => { q with weak := rest }.perform (x.decWeak refs)
  | [], obj :: rest => { q with strong := rest }.perform (x.decStrong obj)
  | [], [] => q

/-- How many derefs are pending. -/
def pending (q : Queues W) : Nat := q.weak.length + q.strong.length

/-- The derefs that the first `k` turns perform. -/
def order (x : Callees W) (q : Queues W) (k : Nat) : List Deref :=
  (List.range k).filterMap fun i => ((turn x)^[i] q).first

/-- The derefs of `done` bring `q₀` to `q`: of each kind what was pending or put off is performed
in its done or still pending in its done, and each binder was performed when every weak
reference put off until then had been. -/
structure Brings (x : Callees W) (q₀ : Queues W) (done : List Deref) (q : Queues W) : Prop where
  world : q.world = (performed x done q₀.world).2
  weak : weakOf done ++ q.weak = q₀.weak ++ weakOf (performed x done q₀.world).1
  strong : strongOf done ++ q.strong = q₀.strong ++ strongOf (performed x done q₀.world).1
  weakFirst : ∀ before obj, before ++ [.strong obj] <+: done →
    weakOf before = q₀.weak ++ weakOf (performed x before q₀.world).1

theorem Brings.refl (x : Callees W) (q : Queues W) : Brings x q [] q := by
  refine ⟨rfl, ?_, ?_, ?_⟩
  · simp [weakOf, performed]
  · simp [strongOf, performed]
  · intro before obj hprefix
    simp at hprefix

/-- One deref more, where a binder only goes when no weak reference is pending. -/
theorem Brings.next (h : Brings x q₀ done q) (deref : Deref) (rest : Queues W)
    (hweak : weakOf [deref] ++ rest.weak = q.weak)
    (hstrong : strongOf [deref] ++ rest.strong = q.strong)
    (hfirst : ∀ obj, deref = .strong obj → q.weak = []) :
    Brings x q₀ (done ++ [deref]) (Queues.add ((x.call deref q.world).1.map Push.deref)
      { rest with world := (x.call deref q.world).2 }) := by
  have hone : performed x (done ++ [deref]) q₀.world =
      ((performed x done q₀.world).1 ++ (x.call deref q.world).1.map Push.deref,
        (x.call deref q.world).2) := by
    rw [performed_append, ← h.world]
    simp [performed]
  refine ⟨?_, ?_, ?_, ?_⟩
  · rw [hone]
    rfl
  · rw [hone]
    simp only [add, weakOf_append, ← List.append_assoc, ← h.weak]
    simp only [List.append_assoc, ← hweak]
  · rw [hone]
    simp only [add, strongOf_append, ← List.append_assoc, ← h.strong]
    simp only [List.append_assoc, ← hstrong]
  · intro before obj hprefix
    rcases List.prefix_concat_iff.mp hprefix with hlast | hearlier
    · obtain ⟨rfl, hderef⟩ := List.append_inj' hlast rfl
      have hnone := hfirst obj (List.singleton_inj.mp hderef).symm
      have hall := h.weak
      rwa [hnone, List.append_nil] at hall
    · exact h.weakFirst before obj hearlier

theorem Brings.turn (h : Brings x q₀ done q) :
    Brings x q₀ (done ++ q.first.toList) (q.turn x) := by
  unfold Queues.turn first
  split
  · rename_i refs rest hq
    apply h.next (.weak refs) { q with weak := rest }
    · simp [hq, weakOf, Deref.refs]
    · simp [strongOf, Deref.obj]
    · intro obj hobj
      cases hobj
  · rename_i obj rest hnone hq
    apply h.next (.strong obj) { q with strong := rest }
    · simp [weakOf, Deref.refs]
    · simp [hq, strongOf, Deref.obj]
    · intro _ _
      exact hnone
  · rw [Option.toList_none, List.append_nil]
    exact h

theorem order_succ (x : Callees W) (q : Queues W) (k : Nat) :
    order x q (k + 1) = order x q k ++ ((turn x)^[k] q).first.toList := by
  unfold order
  rw [List.range_succ, List.filterMap_append]
  cases hfirst : ((Queues.turn x)^[k] q).first with
  | none => simp [hfirst]
  | some deref => simp [hfirst]

theorem order_turn (x : Callees W) (q : Queues W) (k : Nat) :
    order x q (k + 1) = q.first.toList ++ order x (q.turn x) k := by
  unfold order
  rw [List.range_succ_eq_map, List.filterMap_cons, List.filterMap_map]
  cases hfirst : q.first with
  | none => simp [hfirst, Function.comp_def]
  | some deref => simp [hfirst, Function.comp_def]

theorem brings_turns (x : Callees W) (q : Queues W) (k : Nat) :
    Brings x q (order x q k) ((turn x)^[k] q) := by
  induction k with
  | zero => exact .refl x q
  | succ k ih =>
    rw [order_succ, Function.iterate_succ_apply']
    exact ih.turn

theorem Brings.length (h : Brings x q₀ done q) :
    done.length + q.pending = q₀.pending + (performed x done q₀.world).1.length := by
  have hweak := congrArg List.length h.weak
  have hstrong := congrArg List.length h.strong
  have hdone := length_kinds done
  have hput := length_kinds (performed x done q₀.world).1
  simp only [List.length_append] at hweak hstrong
  unfold pending
  omega

/-- However many turns there are, at most `n` derefs are put off in them. -/
def PutsOffAtMost (x : Callees W) (q : Queues W) (n : Nat) : Prop :=
  ∀ k, (performed x (order x q k) q.world).1.length ≤ n

theorem pending_eq_zero_iff : q.pending = 0 ↔ q.weak = [] ∧ q.strong = [] := by
  unfold pending
  rw [Nat.add_eq_zero_iff, List.length_eq_zero_iff, List.length_eq_zero_iff]

theorem first_eq_none_iff : q.first = none ↔ q.pending = 0 := by
  rw [pending_eq_zero_iff]
  unfold first
  split
  · rename_i hweak
    simp [hweak]
  · rename_i hweak hstrong
    simp [hstrong]
  · rename_i hweak hstrong
    simp [hweak, hstrong]

theorem first_of_pending (h : q.pending ≠ 0) : ∃ deref, q.first = some deref := by
  rw [← Option.ne_none_iff_exists']
  exact fun hnone => h (first_eq_none_iff.mp hnone)

theorem turn_idle (h : q.pending = 0) : q.turn x = q := by
  obtain ⟨hweak, hstrong⟩ := pending_eq_zero_iff.mp h
  unfold Queues.turn
  rw [hweak, hstrong]

/-- Once nothing is pending, nothing more is put off. -/
theorem putsOffAtMost_of_idle (h : ((turn x)^[k] q).pending = 0) :
    PutsOffAtMost x q (performed x (order x q k) q.world).1.length := by
  have hstays : ∀ j, order x q (k + j) = order x q k := by
    intro j
    induction j with
    | zero => rfl
    | succ j ih =>
      have hfixed : Function.IsFixedPt (Queues.turn x) ((turn x)^[k] q) := turn_idle h
      rw [← Nat.add_assoc, order_succ, ih, Nat.add_comm k j, Function.iterate_add_apply,
        Function.iterate_fixed hfixed, first_eq_none_iff.mpr h, Option.toList_none, List.append_nil]
  have hgrows : ∀ i j, (performed x (order x q i) q.world).1.length ≤
      (performed x (order x q (i + j)) q.world).1.length := by
    intro i j
    induction j with
    | zero => exact Nat.le_refl _
    | succ j ih =>
      rw [← Nat.add_assoc, order_succ, performed_append, List.length_append]
      exact Nat.le_trans ih (Nat.le_add_right _ _)
  intro i
  rcases Nat.le_total i k with hle | hle
  · obtain ⟨j, rfl⟩ := Nat.exists_eq_add_of_le hle
    exact hgrows i j
  · obtain ⟨j, rfl⟩ := Nat.exists_eq_add_of_le hle
    rw [hstays]

theorem add_add (ds ds' : List Deref) (q : Queues W) : (q.add ds).add ds' = q.add (ds ++ ds') := by
  simp [add]

theorem add_nil (q : Queues W) : q.add [] = q := by
  simp [add, weakOf, strongOf]

theorem pending_add (ds : List Deref) (q : Queues W) :
    (q.add ds).pending = q.pending + ds.length := by
  have hkinds := length_kinds ds
  simp only [pending, add, List.length_append]
  omega

theorem pending_perform (callee : W → List Push × W) (q : Queues W) :
    (q.perform callee).pending = q.pending + (callee q.world).1.length := by
  unfold perform
  rw [pending_add, List.length_map]
  rfl

end Queues

/-! ## The vectors hold the queues -/

variable {x : Callees W} {s s' t : Thread W} {n k : Nat}

namespace Thread

def queues (s : Thread W) : Queues W where
  weak := s.mPendingWeakDerefs.m_items
  strong := s.mPendingStrongDerefs.m_items
  world := s.world

/-- Both vectors are well formed. -/
structure Stored (s : Thread W) : Prop where
  weak : s.mPendingWeakDerefs.Stored
  strong : s.mPendingStrongDerefs.Stored

/-- What is left when the first deref is taken off. -/
def taken (x : Callees W) (s : Thread W) : Thread W :=
  if s.mPendingWeakDerefs.total > 0 then
    { s with mPendingWeakDerefs := (s.mPendingWeakDerefs.delete 0 (x.granted s.world)).2 }
  else { s with mPendingStrongDerefs := (s.mPendingStrongDerefs.delete 0 (x.granted s.world)).2 }

/-- The vector of a deref has room for it. -/
def HasRoom (p : Push) (s : Thread W) : Prop :=
  match p.deref with
  | .weak _ => s.mPendingWeakDerefs.HasRoom p.granted
  | .strong _ => s.mPendingStrongDerefs.HasRoom p.granted

/-- Each deref has room where those before it are stored. -/
def HasRoomForAll : List Push → Thread W → Prop
  | [], _ => True
  | p :: ps, s => s.HasRoom p ∧ ∀ s', push p s = .ok s' → s'.HasRoomForAll ps

/-- What the destructors of the first deref put off has room. -/
def RoomyTurn (x : Callees W) (s : Thread W) : Prop :=
  ∀ deref, s.queues.first = some deref →
    HasRoomForAll (x.call deref s.world).1 { s.taken x with world := (x.call deref s.world).2 }

end Thread

open Thread

/-- A push stores its deref, or finds no room for it. -/
theorem push_cases (p : Push) (hs : s.Stored) :
    (s.HasRoom p ∧ ∃ s', push p s = .ok s' ∧ s'.Stored ∧ s'.queues = s.queues.add [p.deref]) ∨
      (¬s.HasRoom p ∧ push p s = .error .storeOutside) := by
  obtain ⟨deref, granted⟩ := p
  unfold push HasRoom
  cases deref with
  | weak refs =>
    dsimp only
    rcases hs.weak.add_cases refs granted with ⟨hroom, capacity, hadd, hv⟩ | ⟨hfull, hadd⟩
    · refine .inl ⟨hroom, _, congrArg (Except.map _) hadd, ⟨hv, hs.strong⟩, ?_⟩
      simp [queues, Queues.add, weakOf, strongOf, Deref.refs, Deref.obj]
    · exact .inr ⟨hfull, congrArg (Except.map _) hadd⟩
  | strong obj =>
    dsimp only
    rcases hs.strong.add_cases obj granted with ⟨hroom, capacity, hadd, hv⟩ | ⟨hfull, hadd⟩
    · refine .inl ⟨hroom, _, congrArg (Except.map _) hadd, ⟨hs.weak, hv⟩, ?_⟩
      simp [queues, Queues.add, weakOf, strongOf, Deref.refs, Deref.obj]
    · exact .inr ⟨hfull, congrArg (Except.map _) hadd⟩

theorem pushAll_cases (ps : List Push) (hs : s.Stored) :
    (s.HasRoomForAll ps ∧ ∃ s', pushAll ps s = .ok s' ∧ s'.Stored ∧
        s'.queues = s.queues.add (ps.map Push.deref)) ∨
      (¬s.HasRoomForAll ps ∧ pushAll ps s = .error .storeOutside) := by
  induction ps generalizing s with
  | nil => exact .inl ⟨trivial, s, rfl, hs, s.queues.add_nil.symm⟩
  | cons p ps ih =>
    unfold pushAll HasRoomForAll
    rcases push_cases p hs with ⟨hroom, s₁, hpush, hs₁, hq₁⟩ | ⟨hfull, hpush⟩
    · simp only [hpush, Except.ok.injEq, forall_eq']
      rcases ih hs₁ with ⟨hall, s', hpushes, hs', hq'⟩ | ⟨hfull, hpushes⟩
      · refine .inl ⟨⟨hroom, hall⟩, s', hpushes, hs', ?_⟩
        rw [hq', hq₁, Queues.add_add]
        rfl
      · exact .inr ⟨fun h => hfull h.2, hpushes⟩
    · rw [hpush]
      exact .inr ⟨fun h => hfull h.1, rfl⟩

/-- The call comes back with its derefs put off, or has no room for one. -/
theorem perform_cases (callee : W → List Push × W) (hs : s.Stored) :
    (HasRoomForAll (callee s.world).1 { s with world := (callee s.world).2 } ∧
      ∃ s', perform callee s = .ok ((), s') ∧ s'.Stored ∧
        s'.queues = s.queues.perform callee) ∨
    (¬HasRoomForAll (callee s.world).1 { s with world := (callee s.world).2 } ∧
      perform callee s = .error (.inCall .storeOutside)) := by
  have hcalled : ({ s with world := (callee s.world).2 } : Thread W).Stored :=
    ⟨hs.weak, hs.strong⟩
  unfold perform
  dsimp only
  rcases pushAll_cases (callee s.world).1 hcalled with
    ⟨hroom, s', hpushes, hs', hq⟩ | ⟨hfull, hpushes⟩
  · rw [hpushes]
    exact .inl ⟨hroom, s', rfl, hs', hq⟩
  · rw [hpushes]
    exact .inr ⟨hfull, rfl⟩

/-! ## The turns -/

/-- What the loops do between two looks at the vectors. -/
def turn (x : Callees W) : Prog (Thread W) Fault Unit := fun s =>
  if s.mPendingWeakDerefs.total > 0 then derefWeak x s else derefOneStrong x s

theorem total_pos_iff {α : Type} (v : VectorBase α) : v.total > 0 ↔ v.m_items ≠ [] := by
  unfold VectorBase.total
  rw [← List.length_pos_iff]
  omega

theorem turn_of_weak (h : s.queues.weak ≠ []) : turn x s = derefWeak x s :=
  if_pos ((total_pos_iff _).mpr h)

theorem turn_of_none (h : s.queues.weak = []) : turn x s = derefOneStrong x s :=
  if_neg (by rwa [total_pos_iff, not_not])

/-- A turn takes the first deref off and performs it. -/
theorem turn_of_first {deref : Deref} (x : Callees W) (hs : s.Stored)
    (h : s.queues.first = some deref) :
    turn x s = perform (x.call deref) (s.taken x) ∧ (s.taken x).Stored ∧
      s.queues.turn x = (s.taken x).queues.perform (x.call deref) ∧
      (s.taken x).world = s.world := by
  unfold Queues.first at h
  unfold Queues.turn taken
  split at h
  · rename_i refs rest hweak
    obtain ⟨hget, hrest, hstored⟩ := hs.weak.delete_first (x.granted s.world) hweak
    have hsome : s.queues.weak ≠ [] := hweak ▸ List.cons_ne_nil _ _
    rw [if_pos ((total_pos_iff _).mpr hsome), turn_of_weak hsome]
    cases h
    refine ⟨?_, ⟨hstored, hs.strong⟩, ?_, rfl⟩
    · show decWeak x (s.mPendingWeakDerefs.get 0) _ = _
      rw [hget]
      rfl
    · unfold queues
      rw [hrest]
      rfl
  · rename_i obj rest hnone hstrong
    obtain ⟨hget, hrest, hstored⟩ := hs.strong.delete_first (x.granted s.world) hstrong
    have hidle : ¬s.mPendingWeakDerefs.total > 0 := by
      rwa [total_pos_iff, not_not]
    have hsome : s.queues.strong ≠ [] := hstrong ▸ List.cons_ne_nil _ _
    rw [if_neg hidle, turn_of_none hnone]
    cases h
    refine ⟨?_, ⟨hs.weak, hstored⟩, ?_, rfl⟩
    · show (if s.mPendingStrongDerefs.total > 0 then derefStrong x else pure ()) s = _
      rw [if_pos ((total_pos_iff _).mpr hsome)]
      show decStrong x (s.mPendingStrongDerefs.get 0) _ = _
      rw [hget]
      rfl
    · unfold queues
      rw [hrest]
      rfl
  · cases h

/-- A turn of the loops is a turn of the queues, where the destructors find room. -/
theorem turn_cases (x : Callees W) (hs : s.Stored) (hpending : s.queues.pending ≠ 0) :
    (s.RoomyTurn x ∧ ∃ s', turn x s = .ok ((), s') ∧ s'.Stored ∧ s'.queues = s.queues.turn x) ∨
      (¬s.RoomyTurn x ∧ turn x s = .error (.inCall .storeOutside)) := by
  obtain ⟨deref, hfirst⟩ := Queues.first_of_pending hpending
  obtain ⟨hturn, htaken, hqueues, hworld⟩ := turn_of_first x hs hfirst
  unfold RoomyTurn
  simp only [hfirst, Option.some.injEq, forall_eq', hturn, hqueues, ← hworld]
  exact perform_cases (x.call deref) htaken

/-- `k` turns, each of which performs a deref, lead from one state to another. -/
inductive Turns (x : Callees W) : Nat → Thread W → Thread W → Prop
  | none (s : Thread W) : Turns x 0 s s
  | more {k : Nat} {s s' t : Thread W} : s.queues.pending ≠ 0 → turn x s = .ok ((), s') →
      Turns x k s' t → Turns x (k + 1) s t

theorem Turns.one (hpending : s.queues.pending ≠ 0) (hturn : turn x s = .ok ((), s')) :
    Turns x 1 s s' := .more hpending hturn (.none s')

theorem Turns.trans {j : Nat} (h : Turns x k s s') (h' : Turns x j s' t) :
    Turns x (k + j) s t := by
  induction h with
  | none s => rwa [Nat.zero_add]
  | more hpending hturn _ ih =>
    rw [Nat.succ_add]
    exact .more hpending hturn (ih h')

/-- Turns that come to rest pass through every state that turns lead to. -/
theorem Turns.through {j : Nat} (h : Turns x j s s') (hend : Turns x k s t)
    (hidle : t.queues.pending = 0) : ∃ i, k = j + i ∧ Turns x i s' t := by
  induction h generalizing k with
  | none s => exact ⟨k, (Nat.zero_add k).symm, hend⟩
  | more hpending hturn _ ih =>
    cases hend with
    | none => exact absurd hidle hpending
    | more _ hturn' hrest =>
      cases hturn.symm.trans hturn'
      obtain ⟨i, rfl, hrest'⟩ := ih hrest
      exact ⟨i, (Nat.succ_add _ i).symm, hrest'⟩

/-- The vectors stay well formed and are where the queues are after as many turns, each of which
performs a deref. -/
theorem Turns.queues (h : Turns x k s t) (hs : s.Stored) :
    t.Stored ∧ t.queues = (Queues.turn x)^[k] s.queues ∧ (s.queues.order x k).length = k := by
  induction h with
  | none s => exact ⟨hs, rfl, rfl⟩
  | @more k s s' t hpending hturn _ ih =>
    rcases turn_cases x hs hpending with ⟨-, s₁, hok, hs₁, hq₁⟩ | ⟨-, herror⟩
    · cases hok.symm.trans hturn
      obtain ⟨ht, hq, hlength⟩ := ih hs₁
      rw [hq₁] at hq hlength
      refine ⟨ht, hq, ?_⟩
      obtain ⟨deref, hfirst⟩ := Queues.first_of_pending hpending
      rw [Queues.order_turn, hfirst, Option.toList_some, List.singleton_append, List.length_cons,
        hlength]
    · cases herror.symm.trans hturn

/-- Every turn finds room, however many there are. -/
def Roomy (x : Callees W) (s : Thread W) : Prop := ∀ k t, Turns x k s t → t.RoomyTurn x

/-- Where every turn finds room and only so many derefs are put off, the turns come to rest. -/
theorem Roomy.rest (h : Roomy x s) (hs : s.Stored) (hn : s.queues.PutsOffAtMost x n) :
    ∃ k t, Turns x k s t ∧ t.queues.pending = 0 := by
  have hreached : ∀ m, (∃ k t, Turns x k s t ∧ t.queues.pending = 0) ∨ ∃ t, Turns x m s t := by
    intro m
    induction m with
    | zero => exact .inr ⟨s, .none s⟩
    | succ m ih =>
      rcases ih with hrest | ⟨t, hturns⟩
      · exact .inl hrest
      by_cases hidle : t.queues.pending = 0
      · exact .inl ⟨m, t, hturns, hidle⟩
      rcases turn_cases x (hturns.queues hs).1 hidle with ⟨-, t', hok, -⟩ | ⟨hfull, -⟩
      · exact .inr ⟨t', hturns.trans (.one hidle hok)⟩
      · exact absurd (h m t hturns) hfull
  rcases hreached (s.queues.pending + n + 1) with hrest | ⟨t, hturns⟩
  · exact hrest
  · obtain ⟨-, -, hlength⟩ := hturns.queues hs
    have hsum := (Queues.brings_turns x s.queues (s.queues.pending + n + 1)).length
    have hput := hn (s.queues.pending + n + 1)
    omega

/-! ## The loops -/

/-- Something is pending where one of the vectors holds something. -/
theorem loops_iff (s : Thread W) : (s.mPendingWeakDerefs.total > 0 ∨
    s.mPendingStrongDerefs.total > 0) ↔ s.queues.pending ≠ 0 := by
  rw [total_pos_iff, total_pos_iff, Ne, Ne, Ne, Queues.pending_eq_zero_iff, not_and_or]
  rfl

theorem pending_of_weak (h : s.queues.weak ≠ []) : s.queues.pending ≠ 0 :=
  fun hidle => h (Queues.pending_eq_zero_iff.mp hidle).1

/-- The inner loop makes turns until no weak reference is pending. -/
theorem derefAllWeak.turns {fuel : Nat} :
    wp (derefAllWeak x fuel) (fun _ s' => (∃ k, Turns x k s s') ∧ s'.queues.weak = [])
      (fun _ => True) s := by
  induction fuel generalizing s with
  | zero => trivial
  | succ fuel ih =>
    unfold derefAllWeak
    rw [wp_bind, wp_get, wp_ite, wp_bind, total_pos_iff, not_not]
    refine ⟨fun hsome => ?_, fun hnone => ⟨⟨0, .none s⟩, hnone⟩⟩
    apply wp_of_result
    · intro _ s₁ hturn
      rw [← turn_of_weak hsome] at hturn
      apply wp_imp ih
      rintro _ s' ⟨⟨k, hturns⟩, hnone⟩
      exact ⟨⟨k + 1, .more (pending_of_weak hsome) hturn hturns⟩, hnone⟩
    · intro _ _
      trivial

/-- The inner loop goes as far on the way to rest as weak references are pending. -/
theorem derefAllWeak.ends {fuel : Nat} (h : Turns x k s t) (hidle : t.queues.pending = 0)
    (hfuel : k < fuel) :
    wp (derefAllWeak x fuel) (fun _ s' => s'.queues.weak = [] ∧ ∃ j, Turns x j s' t ∧
      (j < k ∨ (j = k ∧ s' = s))) never s := by
  induction fuel generalizing s k with
  | zero => omega
  | succ fuel ih =>
    unfold derefAllWeak
    rw [wp_bind, wp_get, wp_ite, wp_bind, total_pos_iff, not_not]
    refine ⟨fun hsome => ?_, fun hnone => ⟨hnone, k, h, .inr ⟨rfl, rfl⟩⟩⟩
    cases h with
    | none => exact absurd hidle (pending_of_weak hsome)
    | more _ hturn hrest =>
      rw [turn_of_weak hsome] at hturn
      rw [wp_of_ok hturn]
      apply wp_imp (ih hrest (by omega))
      rintro _ s' ⟨hnone, j, hturns, hless⟩
      exact ⟨hnone, j, hturns, .inl (by omega)⟩

theorem derefOneStrong_idle (h : s.queues.strong = []) : derefOneStrong x s = .ok ((), s) := by
  show (if s.mPendingStrongDerefs.total > 0 then derefStrong x else pure ()) s = _
  rw [if_neg]
  · rfl
  · rwa [total_pos_iff, not_not]

/-- One binder goes at most. -/
theorem derefOneStrong.turns (hnone : s.queues.weak = []) :
    wp (derefOneStrong x) (fun _ s' => ∃ k, Turns x k s s') (fun _ => True) s := by
  by_cases hidle : s.queues.pending = 0
  · rw [wp_of_ok (derefOneStrong_idle (Queues.pending_eq_zero_iff.mp hidle).2)]
    exact ⟨0, .none s⟩
  · apply wp_of_result
    · intro _ s' hok
      rw [← turn_of_none hnone] at hok
      exact ⟨1, .one hidle hok⟩
    · intro _ _
      trivial

/-- The outer loop makes turns until nothing is pending. -/
theorem derefAll.turns {turns fuel : Nat} :
    wp (derefAll x turns fuel)
      (fun _ s' => (∃ k, Turns x k s s') ∧ s'.queues.pending = 0) (fun _ => True) s := by
  induction fuel generalizing s with
  | zero => trivial
  | succ fuel ih =>
    unfold derefAll
    rw [wp_bind, wp_get, wp_ite, wp_bind, loops_iff, not_not]
    refine ⟨fun _ => ?_, fun hidle => ⟨⟨0, .none s⟩, hidle⟩⟩
    apply wp_imp derefAllWeak.turns
    rintro _ s₁ ⟨⟨k₁, hturns₁⟩, hnone⟩
    rw [wp_bind]
    apply wp_imp (derefOneStrong.turns hnone)
    rintro _ s₂ ⟨k₂, hturns₂⟩
    apply wp_imp ih
    rintro _ s₃ ⟨⟨k₃, hturns₃⟩, hidle⟩
    exact ⟨⟨_, (hturns₁.trans hturns₂).trans hturns₃⟩, hidle⟩

/-- The outer loop comes to where its turns come to rest. -/
theorem derefAll.ends {turns fuel : Nat} (h : Turns x k s t) (hidle : t.queues.pending = 0)
    (hturns : k < turns) (hfuel : k < fuel) :
    wp (derefAll x turns fuel) (fun _ s' => s' = t) never s := by
  induction fuel generalizing s k with
  | zero => omega
  | succ fuel ih =>
    unfold derefAll
    rw [wp_bind, wp_get, wp_ite, wp_bind, loops_iff, not_not]
    refine ⟨fun hpending => ?_, fun hrest => ?_⟩
    · apply wp_imp (derefAllWeak.ends h hidle hturns)
      rintro _ s₁ ⟨hnone, j, hturns₁, hless⟩
      rw [wp_bind]
      cases hturns₁ with
      | none =>
        rw [wp_of_ok (derefOneStrong_idle (Queues.pending_eq_zero_iff.mp hidle).2)]
        rcases hless with hless | ⟨-, rfl⟩
        · exact ih (.none t) (by omega) (by omega)
        · exact absurd hidle hpending
      | more _ hturn hrest =>
        rw [turn_of_none hnone] at hturn
        rw [wp_of_ok hturn]
        exact ih hrest (by omega) (by omega)
    · cases h with
      | none => rfl
      | more hpending _ _ => exact absurd hrest hpending

theorem processPendingDerefs.turns {fuel : Nat} :
    wp (processPendingDerefs x fuel)
      (fun _ s' => (∃ k, Turns x k s s') ∧ s'.queues.pending = 0) (fun _ => True) s := by
  unfold processPendingDerefs
  rw [wp_bind, wp_get, if_pos (Nat.le_refl _)]
  exact derefAll.turns

theorem processPendingDerefs.ends {fuel : Nat} (h : Turns x k s t) (hidle : t.queues.pending = 0)
    (hfuel : k < fuel) : wp (processPendingDerefs x fuel) (fun _ s' => s' = t) never s := by
  unfold processPendingDerefs
  rw [wp_bind, wp_get, if_pos (Nat.le_refl _)]
  exact derefAll.ends h hidle hfuel hfuel

/-- From `s` to `s'` whatever was pending or put off was performed, each deref once, those of one
kind in their order, and no binder while a weak reference was pending. Nothing is left. -/
structure WorkedOff (x : Callees W) (s s' : Thread W) : Prop where
  order : ∃ order, s.queues.Brings x order s'.queues
  weak : s'.mPendingWeakDerefs.m_items = []
  strong : s'.mPendingStrongDerefs.m_items = []

theorem Turns.workedOff (h : Turns x k s t) (hs : s.Stored) (hidle : t.queues.pending = 0) :
    WorkedOff x s t := by
  obtain ⟨-, hqueues, -⟩ := h.queues hs
  obtain ⟨hweak, hstrong⟩ := Queues.pending_eq_zero_iff.mp hidle
  have hbrings := Queues.brings_turns x s.queues k
  rw [← hqueues] at hbrings
  exact ⟨⟨_, hbrings⟩, hweak, hstrong⟩

/-- Turns that come to rest found room. -/
theorem Turns.roomy (h : Turns x k s t) (hs : s.Stored) (hidle : t.queues.pending = 0) :
    Roomy x s := by
  intro j u hturns
  obtain ⟨i, -, hrest⟩ := hturns.through h hidle
  intro deref hfirst
  cases hrest with
  | none =>
    rw [Queues.first_eq_none_iff.mpr hidle] at hfirst
    cases hfirst
  | more hpending hturn _ =>
    rcases turn_cases x (hturns.queues hs).1 hpending with ⟨hroom, -⟩ | ⟨-, herror⟩
    · exact hroom deref hfirst
    · cases herror.symm.trans hturn

/-- Memory is to be had wherever a destructor puts something off. -/
def Callees.Granting (x : Callees W) : Prop := ∀ deref w, ∀ p ∈ (x.call deref w).1, p.granted = true

theorem hasRoom_of_granted {p : Push} (hs : s.Stored) (hgranted : p.granted = true)
    (hfew : s.queues.pending < 2 ^ 30) : s.HasRoom p := by
  have hweak : s.mPendingWeakDerefs.total < 2 ^ 30 := by
    unfold VectorBase.total
    unfold Queues.pending queues at hfew
    dsimp only at hfew
    omega
  have hstrong : s.mPendingStrongDerefs.total < 2 ^ 30 := by
    unfold VectorBase.total
    unfold Queues.pending queues at hfew
    dsimp only at hfew
    omega
  unfold HasRoom
  cases p.deref with
  | weak refs => exact hs.weak.hasRoom_of_granted hgranted hweak
  | strong obj => exact hs.strong.hasRoom_of_granted hgranted hstrong

theorem hasRoomForAll_of_granted {ps : List Push} (hs : s.Stored)
    (hgranted : ∀ p ∈ ps, p.granted = true) (hfew : s.queues.pending + ps.length ≤ 2 ^ 30) :
    s.HasRoomForAll ps := by
  induction ps generalizing s with
  | nil => trivial
  | cons p ps ih =>
    rw [List.length_cons] at hfew
    have hroom := hasRoom_of_granted hs (hgranted p List.mem_cons_self) (by omega)
    refine ⟨hroom, fun s' hpush => ?_⟩
    rcases push_cases p hs with ⟨-, s₁, hok, hs₁, hq₁⟩ | ⟨hfull, -⟩
    · cases hok.symm.trans hpush
      apply ih hs₁ fun p' hp' => hgranted p' (List.mem_cons_of_mem p hp')
      rw [hq₁, Queues.pending_add, List.length_singleton]
      omega
    · exact absurd hroom hfull

/-- Where memory is to be had, fewer than 2^30 derefs have room. -/
theorem roomy_of_granting (hx : x.Granting) (hs : s.Stored) (hn : s.queues.PutsOffAtMost x n)
    (hfew : s.queues.pending + n ≤ 2 ^ 30) : Roomy x s := by
  intro k t hturns deref hfirst
  obtain ⟨ht, hqueues, -⟩ := hturns.queues hs
  obtain ⟨-, htaken, hturn, hworld⟩ := turn_of_first x ht hfirst
  have hlength := (Queues.brings_turns x s.queues (k + 1)).length
  have hqworld : (t.taken x).queues.world = t.world := hworld
  rw [Function.iterate_succ_apply', ← hqueues, hturn, Queues.pending_perform, hqworld] at hlength
  have hput := hn (k + 1)
  have hcalled : ({ t.taken x with world := (x.call deref t.world).2 } : Thread W).Stored :=
    ⟨htaken.weak, htaken.strong⟩
  apply hasRoomForAll_of_granted hcalled (hx deref t.world)
  show (t.taken x).queues.pending + (x.call deref t.world).1.length ≤ 2 ^ 30
  omega

/-- Whatever the destructors put off, as long as it comes to an end: `processPendingDerefs` works
everything off where every push of a destructor finds room in its vector, or the memory to double
it, and only there. -/
theorem pending_derefs_are_worked_off_where_there_is_room (x : Callees W) (s : Thread W)
    (hs : s.Stored) (n : Nat) (hn : s.queues.PutsOffAtMost x n) :
    (∃ enough, ∀ fuel ≥ enough, ∃ s', processPendingDerefs x fuel s = .ok ((), s') ∧
      WorkedOff x s s') ↔ Roomy x s := by
  constructor
  · rintro ⟨enough, hall⟩
    obtain ⟨s', hok, -⟩ := hall enough (Nat.le_refl _)
    obtain ⟨⟨k, hturns⟩, hidle⟩ := wp.of_ok processPendingDerefs.turns hok
    exact hturns.roomy hs hidle
  · intro hroomy
    obtain ⟨k, t, hturns, hidle⟩ := hroomy.rest hs hn
    refine ⟨k + 1, fun fuel hfuel => ⟨t, ?_, hturns.workedOff hs hidle⟩⟩
    obtain ⟨⟨⟩, t', hok, rfl⟩ := wp_never_iff.mp (processPendingDerefs.ends hturns hidle hfuel)
    exact hok

/-- The binder 9 holds `n` weak references to the binder of 3. The calls are written down. -/
def ninth (n : Nat) (granted : Bool) : Callees (List Deref) where
  decWeak := fun refs calls => ([], calls ++ [.weak refs])
  decStrong := fun obj calls =>
    (if obj = 9 then List.replicate n ⟨.weak 3, granted⟩ else [], calls ++ [.strong obj])
  granted := fun _ => true

/-- The binder 9 is to be released, and the weak references of `weak` are to be given back. -/
def releasing (weak : List (BitVec 64)) : Thread (List Deref) where
  mPendingWeakDerefs := ⟨weak, VECTOR_INIT_CAPACITY⟩
  mPendingStrongDerefs := ⟨[9], VECTOR_INIT_CAPACITY⟩
  mInDataPos := 0
  world := []

theorem the_weak_reference_of_the_ninth_is_given_back :
    ∃ fuel s', processPendingDerefs (ninth 1 true) fuel (releasing [1]) = .ok ((), s') ∧
      WorkedOff (ninth 1 true) (releasing [1]) s' ∧ s'.world = [.weak 1, .strong 9, .weak 3] := by
  have hs : (releasing [1]).Stored :=
    ⟨⟨by decide, by decide, by decide⟩, ⟨by decide, by decide, by decide⟩⟩
  have hidle : ((Queues.turn (ninth 1 true))^[3] (releasing [1]).queues).pending = 0 := by decide
  have hn : (releasing [1]).queues.PutsOffAtMost (ninth 1 true) 1 :=
    Queues.putsOffAtMost_of_idle hidle
  have hgranting : (ninth 1 true).Granting := by
    intro deref w p hp
    unfold ninth Callees.call at hp
    cases deref with
    | weak refs => cases hp
    | strong obj =>
      dsimp only at hp
      split at hp
      · rw [List.eq_of_mem_replicate hp]
      · cases hp
  obtain ⟨enough, hall⟩ := (pending_derefs_are_worked_off_where_there_is_room (ninth 1 true)
    (releasing [1]) hs 1 hn).mpr (roomy_of_granting hgranting hs hn (by decide))
  obtain ⟨s', hok, hworked⟩ := hall (enough + 4) (Nat.le_add_right _ _)
  obtain ⟨t, hrun, hcalls⟩ : ∃ t, processPendingDerefs (ninth 1 true) (enough + 4) (releasing [1]) =
      .ok ((), t) ∧ t.world = [.weak 1, .strong 9, .weak 3] := ⟨_, rfl, rfl⟩
  cases hok.symm.trans hrun
  exact ⟨enough + 4, s', hok, hworked, hcalls⟩

/-- Seventeen weak references do not fit into a vector of sixteen that cannot grow. -/
theorem the_seventeenth_weak_reference_is_stored_outside :
    ¬∀ (x : Callees (List Deref)) (s : Thread (List Deref)) (n : Nat), s.Stored →
      s.queues.PutsOffAtMost x n → ∃ enough, ∀ fuel ≥ enough, ∃ s',
        processPendingDerefs x fuel s = .ok ((), s') ∧ WorkedOff x s s' := by
  intro h
  have hs : (releasing []).Stored :=
    ⟨⟨by decide, by decide, by decide⟩, ⟨by decide, by decide, by decide⟩⟩
  have hidle : ((Queues.turn (ninth 17 false))^[18] (releasing []).queues).pending = 0 := by decide
  obtain ⟨enough, hall⟩ := h (ninth 17 false) (releasing []) _ hs
    (Queues.putsOffAtMost_of_idle hidle)
  obtain ⟨s', hok, -⟩ := hall (enough + 2) (Nat.le_add_right _ _)
  have herror : processPendingDerefs (ninth 17 false) (enough + 2) (releasing []) =
      .error (.inCall .storeOutside) := rfl
  cases herror.symm.trans hok

end IPCThreadState

end system_binder
