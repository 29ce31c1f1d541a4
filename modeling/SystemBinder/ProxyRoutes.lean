-- Which proxy a handle leads to: over every run whose look-ups come in turn, each handle has an
-- entry of its own, and a call for it returns a proxy of that handle.
import SystemBinder.ProxySharing

open prog

namespace system_binder

namespace Process

variable {l l' : Totals} {s s' : Process} {b e n : Nat} {handle : BitVec 32}

/-! ## Look-ups in turn -/

/-- The handle has a place in the table, or the next one, and that within the capacity. -/
def Reached (s : Process) (handle : BitVec 32) : Prop :=
  handle.toInt < s.mHandleToObject.total ∨
    (handle.toInt = s.mHandleToObject.total ∧
      s.mHandleToObject.total < s.mHandleToObject.capacity)

/-- The table refuses a handle beyond its capacity, but grows. -/
def Refused (s : Process) (handle : BitVec 32) : Prop :=
  s.mHandleToObject.capacity ≤ handle.toInt ∧
    s.mHandleToObject.capacity * 2 + (handle.toInt + 1 - s.mHandleToObject.total) < 2 ^ 31

instance (s : Process) (handle : BitVec 32) : Decidable (Reached s handle) := by
  unfold Reached
  infer_instance

instance (s : Process) (handle : BitVec 32) : Decidable (Refused s handle) := by
  unfold Refused
  infer_instance

/-- Each handle has an entry of its own, and its binder is a proxy of the handle. The
environment neither throttles nor fails. -/
structure Routed (s : Process) : Prop where
  room : s.mHandleToObject.total ≤ s.mHandleToObject.capacity
  distinct : s.mHandleToObject.m_items.Nodup
  routes : ∀ handle (e b : Nat), entryOf s handle = some e → s.entries[e]? = some ⟨b⟩ →
    b = 0 ∨ (s.objects b).binder_handle = some handle
  context : (s.objects s.mContextObject).binder_handle = none ∧ s.mContextObject < s.next
  calm : s.throttled = false ∧ s.pingStatus ≠ STATUS_DEAD_OBJECT ∧ s.granted = true

/-- The place of a handle that has one. -/
theorem entryOf_eq_some : entryOf s handle = some e ↔
    0 ≤ handle.toInt ∧ s.mHandleToObject.m_items[handle.toInt.toNat]? = some e := by
  unfold entryOf VectorBase.get
  constructor
  · intro h
    split at h
    · split at h
      · rename_i hpos
        exact ⟨hpos, h⟩
      · cases h
    · cases h
  · rintro ⟨hpos, hitem⟩
    have hlt := (List.getElem?_eq_some_iff.mp hitem).1
    rw [handleSize_of_nonneg hpos, if_pos hlt, if_pos hpos]
    exact hitem

/-- Two handles never share an entry. -/
theorem Routed.own_entry {handle' : BitVec 32} (hr : Routed s) (h : entryOf s handle = some e)
    (h' : entryOf s handle' = some e) : handle = handle' := by
  obtain ⟨hpos, hitem⟩ := entryOf_eq_some.mp h
  obtain ⟨hpos', hitem'⟩ := entryOf_eq_some.mp h'
  have hlt := (List.getElem?_eq_some_iff.mp hitem).1
  have hindex : handle.toInt.toNat = handle'.toInt.toNat :=
    (List.getElem?_inj hlt hr.distinct).mp (hitem.trans hitem'.symm)
  apply BitVec.eq_of_toInt_eq
  omega

/-! ## What keeps the routes -/

theorem Routed.fixed (hr : Routed s) (hsame : s'.fixed = s.fixed) : Routed s' := by
  have htable : s'.mHandleToObject = s.mHandleToObject := congrArg Fixed.mHandleToObject hsame
  have hentries : s'.entries = s.entries := congrArg Fixed.entries hsame
  have hhandles : ∀ a, (s'.objects a).binder_handle = (s.objects a).binder_handle :=
    fun a => congrFun (congrArg Fixed.handles hsame) a
  have hcontext : s'.mContextObject = s.mContextObject := congrArg Fixed.mContextObject hsame
  have hnext : s'.next = s.next := congrArg Fixed.next hsame
  refine ⟨?_, ?_, fun handle e b hplace hentry => ?_, ?_, ?_⟩
  · rw [htable]
    exact hr.room
  · rw [htable]
    exact hr.distinct
  · rw [hentries] at hentry
    rw [hhandles]
    refine hr.routes handle e b ?_ hentry
    unfold entryOf at hplace ⊢
    rw [htable] at hplace
    exact hplace
  · rw [hcontext, hhandles, hnext]
    exact hr.context
  · rw [show s'.throttled = s.throttled from congrArg Fixed.throttled hsame,
      show s'.pingStatus = s.pingStatus from congrArg Fixed.pingStatus hsame,
      show s'.granted = s.granted from congrArg Fixed.granted hsame]
    exact hr.calm

theorem Routed.allocated (hg : Good (s, l)) (hr : Routed s) : Routed (allocated handle s) := by
  have hold : ∀ a, a ≠ s.next → (Process.allocated handle s).objects a = s.objects a :=
    fun a ha => Function.update_of_ne ha _ _
  refine ⟨hr.room, hr.distinct, fun handle' e b hplace hentry => ?_, ?_, hr.calm⟩
  · refine (hr.routes handle' e b hplace hentry).imp id fun hb => ?_
    rw [hold b ?_]
    · exact hb
    · rintro rfl
      rw [(hg.unused s.next le_rfl).1] at hb
      cases hb
  · obtain ⟨hnone, hlt⟩ := hr.context
    refine ⟨?_, Nat.lt_succ_of_lt hlt⟩
    show ((Process.allocated handle s).objects s.mContextObject).binder_handle = none
    rw [hold _ (Nat.ne_of_lt hlt)]
    exact hnone

/-- A binder stored where it belongs. -/
theorem Routed.stored (hr : Routed s) (hb : ∀ handle, entryOf s handle = some e →
    b = 0 ∨ (s.objects b).binder_handle = some handle) : Routed (stored e b s) := by
  refine ⟨hr.room, hr.distinct, fun handle' e' b' hplace hentry => ?_, hr.context, hr.calm⟩
  have hentry' : (s.entries.set e ⟨b⟩)[e']? = some ⟨b'⟩ := hentry
  by_cases hee : e = e'
  · subst hee
    rw [List.getElem?_set_self'] at hentry'
    obtain ⟨_, -, hbinder⟩ := Option.map_eq_some_iff.mp hentry'
    cases hbinder
    exact hb handle' hplace
  · rw [List.getElem?_set_ne hee] at hentry'
    exact hr.routes handle' e' b' hplace hentry'

/-- A table with one more place at most, which leads to the new entry. -/
theorem Routed.widened {table : VectorBase Nat} (hr : Routed s) (ht : Tabled s)
    (hitems : table.m_items = s.mHandleToObject.m_items ∨
      table.m_items = s.mHandleToObject.m_items ++ [s.entries.length])
    (hroom : table.total ≤ table.capacity) : Routed (widened table s) := by
  have hnew : s.entries.length ∉ s.mHandleToObject.m_items :=
    fun hmem => Nat.lt_irrefl _ (ht.places _ hmem)
  refine ⟨hroom, ?_, fun handle e b hplace hentry => ?_, hr.context, hr.calm⟩
  · show table.m_items.Nodup
    rcases hitems with hitems | hitems
    · rw [hitems]
      exact hr.distinct
    · rw [hitems]
      exact List.nodup_append.mpr ⟨hr.distinct, List.nodup_singleton _, fun a ha c hc hac => hnew (by
        rw [← List.mem_singleton.mp hc, ← hac]
        exact ha)⟩
  · obtain ⟨hpos, hitem⟩ := entryOf_eq_some.mp hplace
    have hitem' : table.m_items[handle.toInt.toNat]? = some e := hitem
    have hentry' : (s.entries ++ [⟨0⟩])[e]? = some ⟨b⟩ := hentry
    have hcases : s.mHandleToObject.m_items[handle.toInt.toNat]? = some e ∨
        e = s.entries.length := by
      rcases hitems with hitems | hitems
      · rw [hitems] at hitem'
        exact Or.inl hitem'
      · rw [hitems, List.getElem?_append] at hitem'
        split at hitem'
        · exact Or.inl hitem'
        · right
          have hmem := List.mem_of_getElem? hitem'
          exact List.mem_singleton.mp hmem
    rcases hcases with hold | rfl
    · have hlt := ht.places e (List.mem_of_getElem? hold)
      rw [List.getElem?_append_left hlt] at hentry'
      exact hr.routes handle e b (entryOf_eq_some.mpr ⟨hpos, hold⟩) hentry'
    · rw [List.getElem?_concat_length] at hentry'
      cases hentry'
      exact Or.inl rfl

/-! ## What a look-up does -/

/-- The number of places that a look-up appends. -/
theorem szSub_handle {N : Nat} (hpos : 0 ≤ handle.toInt) (hN : (N : Int) ≤ handle.toInt) :
    szSub (sz (handleSize handle + 1)) N = handle.toInt.toNat + 1 - N := by
  have hlt := handle.toInt_lt
  rw [handleSize_of_nonneg hpos]
  unfold sz szSub
  rw [Nat.mod_eq_of_lt (by omega), if_pos (by omega)]

theorem lookup_reached (hr : Routed s) (ht : Tabled s) (hpos : 0 ≤ handle.toInt)
    (h : Reached s handle) : ∃ e s₀, lookupHandleLocked handle s = .ok (some e, s₀) ∧
      entryOf s₀ handle = some e ∧ Routed s₀ := by
  unfold Reached VectorBase.total at h
  unfold lookupHandleLocked
  rcases h with hlt | ⟨heq, hroom⟩
  · have hindex : handle.toInt.toNat < s.mHandleToObject.m_items.length := by omega
    have hitem := List.getElem?_eq_getElem hindex
    simp only
    rw [handleSize_of_nonneg hpos, if_neg (by omega)]
    unfold VectorBase.get
    rw [if_pos hpos, hitem]
    exact ⟨_, s, rfl, entryOf_eq_some.mpr ⟨hpos, hitem⟩, hr⟩
  · have hone : szSub (sz (handleSize handle + 1)) s.mHandleToObject.m_items.length = 1 := by
      rw [szSub_handle hpos (by omega)]
      omega
    have hindex : handle.toInt.toNat = s.mHandleToObject.m_items.length := by omega
    simp only
    rw [hone, VectorBase.append_one hroom, handleSize_of_nonneg hpos, if_pos (by omega)]
    simp only
    rw [if_neg (by decide)]
    unfold VectorBase.get
    rw [if_pos hpos, hindex, List.getElem?_concat_length]
    refine ⟨_, _, rfl, entryOf_eq_some.mpr ⟨hpos, ?_⟩, hr.widened ht (Or.inr rfl) ?_⟩
    · rw [hindex]
      exact List.getElem?_concat_length
    · unfold VectorBase.total
      rw [List.length_append, List.length_singleton]
      show ((s.mHandleToObject.m_items.length + 1 : Nat) : Int) ≤ s.mHandleToObject.capacity
      omega

theorem lookup_refused (hr : Routed s) (ht : Tabled s) (hpos : 0 ≤ handle.toInt)
    (h : Refused s handle) :
    ∃ s₀, lookupHandleLocked handle s = .ok (none, s₀) ∧ Routed s₀ := by
  obtain ⟨hbeyond, hsmall⟩ := h
  have hroom := hr.room
  unfold VectorBase.total at hsmall hroom
  have hcount := szSub_handle (N := s.mHandleToObject.m_items.length) hpos (by omega)
  generalize hmany : handle.toInt.toNat + 1 - s.mHandleToObject.m_items.length = many at hcount
  have hrefused : s.mHandleToObject.append s.entries.length many s.granted =
      .ok (STATUS_NO_MEMORY,
        { s.mHandleToObject with capacity := s.mHandleToObject.capacity * 2 + many }) := by
    rw [hr.calm.2.2]
    apply VectorBase.append_refused
    · omega
    · unfold VectorBase.total
      omega
    · omega
  unfold lookupHandleLocked
  simp only
  rw [hcount, hrefused, handleSize_of_nonneg hpos, if_pos (by omega)]
  simp only
  rw [if_pos (by decide)]
  refine ⟨_, rfl, hr.widened ht (Or.inl rfl) ?_⟩
  show (s.mHandleToObject.m_items.length : Int) ≤ s.mHandleToObject.capacity * 2 + many
  omega

/-! ## What a call does -/

/-- A call for a handle in reach returns its proxy. -/
theorem Got.routed {r : Nat} (hg : Good (s, l)) (ht : Tabled s) (hr : Routed s)
    (hpos : 0 ≤ handle.toInt) (hreach : Reached s handle) (h : Got s l handle r s')
    (hshort : ¬Short s handle) :
    Routed s' ∧ r ≠ 0 ∧ (s'.objects r).binder_handle = some handle := by
  obtain ⟨e, s₀, hlook, hplace, hr₀⟩ := lookup_reached hr ht hpos hreach
  cases h with
  | short h => exact absurd h hshort
  | found _ hfound _ hsame =>
    obtain ⟨e', hplace', hentry, hnull, -⟩ := found_eq_some.mp hfound
    refine ⟨hr.fixed hsame, hnull, ?_⟩
    rw [show (s'.objects r).binder_handle = (s.objects r).binder_handle from
      congrFun (congrArg Fixed.handles hsame) r]
    exact (hr.routes handle e' r hplace' hentry).resolve_left hnull
  | refused _ _ hlook' =>
    rw [hlook'] at hlook
    cases hlook
  | created _ _ hlook' h =>
    rw [hlook'] at hlook
    cases hlook
    rcases h.outcome with ⟨-, ⟨-, hdead⟩, -⟩ | ⟨-, hmany, -⟩ | ⟨rfl, -, hfixed⟩
    · exact absurd hdead hr₀.calm.2.1
    · rw [hr₀.calm.1] at hmany
      cases hmany
    · have hself : ((allocated handle s₀).objects s₀.next).binder_handle = some handle := by
        unfold allocated
        simp
      have hstored : Routed (stored e s₀.next (allocated handle s₀)) := by
        refine (Routed.allocated (hg.looked hlook') hr₀).stored fun handle' hplace' => ?_
        have hsame : handle' = handle := hr₀.own_entry hplace' hplace
        rw [hsame]
        exact Or.inr hself
      refine ⟨hstored.fixed hfixed, Nat.ne_of_gt (hg.looked hlook').first, ?_⟩
      rw [show (s'.objects s₀.next).binder_handle = _ from
        congrFun (congrArg Fixed.handles hfixed) s₀.next]
      exact hself

theorem expungeHandle.spec_routed (binder : Nat) (hr : Routed s) (ht : Tabled s)
    (hpos : 0 ≤ handle.toInt) (h : Reached s handle ∨ Refused s handle) :
    wp (expungeHandle handle binder) (fun _ s' => Routed s') never s := by
  unfold expungeHandle
  rw [wp_bind]
  rcases h with h | h
  · obtain ⟨e, s₀, hlook, hplace, hr₀⟩ := lookup_reached hr ht hpos h
    have hlt := entryOf_lt (ht.looked hlook) hplace
    rw [wp_of_ok hlook, wp_bind, loadEntry.spec (List.getElem?_eq_getElem hlt)]
    split
    · exact hr₀.stored fun _ _ => Or.inl rfl
    · rw [wp_pure]
      exact hr₀
  · obtain ⟨s₀, hlook, hr₀⟩ := lookup_refused hr ht hpos h
    rw [wp_of_ok hlook, wp_pure]
    exact hr₀

theorem Outcome.routed {op : Op} {ok : Bool} (hg : Good (s, l)) (hr : Routed s)
    (h : Outcome s l op ok s') : Routed s' := by
  cases h with
  | effect _ _ h => exact hr.fixed h.same
  | born h => exact (hr.allocated hg).fixed h.same
  | talks _ h => exact hr.fixed (Talks.flushed hg.has h).same
  | looper => exact ⟨hr.room, hr.distinct, hr.routes, hr.context, hr.calm⟩
  | serving => exact ⟨hr.room, hr.distinct, hr.routes, hr.context, hr.calm⟩

/-! ## The law of routes -/

/-- A call returns, no two handles share an entry, and a call for a handle returns a proxy of
that handle, which is not NULL and not the context object. -/
def RoutesToOwn (c : Call) (x : Process × Totals)
    (r : Except Fault (Nat × (Process × Totals))) : Prop :=
  ∃ b x', r = .ok (b, x') ∧
    (∀ handle handle' e, entryOf x'.1 handle = some e → entryOf x'.1 handle' = some e →
      handle = handle') ∧
    ∀ handle, c = .getStrongProxyForHandle handle → ¬Short x.1 handle →
      b ≠ 0 ∧ (x'.1.objects b).binder_handle = some handle ∧ b ≠ x'.1.mContextObject

/-- The look-ups come in turn: each call for a handle finds its place in the table or makes the
next one within the capacity. What else is done keeps to the rules, and the environment is
calm. -/
def InTurn (c : Call) (x : Process × Totals) : Prop :=
  match c with
  | .getStrongProxyForHandle handle =>
    0 ≤ handle.toInt ∧ (Short x.1 handle ∨ Reached x.1 handle) ∧
      Sound (.getStrongProxyForHandle handle) x
  | .expungeHandle handle _ => 0 ≤ handle.toInt ∧ (Reached x.1 handle ∨ Refused x.1 handle)
  | .other op => Respects op x
  | .outside throttled pingStatus granted =>
    throttled = false ∧ pingStatus ≠ STATUS_DEAD_OBJECT ∧ granted = true

instance : ∀ (c : Call) (x : Process × Totals), Decidable (InTurn c x)
  | .getStrongProxyForHandle _, _ => inferInstanceAs (Decidable (_ ∧ _ ∧ _))
  | .expungeHandle _ _, _ => inferInstanceAs (Decidable (_ ∧ _))
  | .other op, x => inferInstanceAs (Decidable (Respects op x))
  | .outside _ _ _, _ => inferInstanceAs (Decidable (_ ∧ _ ∧ _))

/-- The invariant of the routes. -/
structure Routing (x : Process × Totals) : Prop where
  good : Good x
  tabled : Tabled x.1
  routed : Routed x.1

/-- One call in turn. -/
theorem Routing.call {c : Call} {x : Process × Totals} (h : Routing x) (hc : InTurn c x) :
    ∃ b x', call n c x = .ok (b, x') ∧ Routing x' ∧
      ∀ handle, c = .getStrongProxyForHandle handle → ¬Short x.1 handle →
        b ≠ 0 ∧ (x'.1.objects b).binder_handle = some handle := by
  obtain ⟨s, l⟩ := x
  obtain ⟨hg, ht, hr⟩ := h
  cases c with
  | getStrongProxyForHandle handle =>
    obtain ⟨hpos, hreach, hroom, hheld⟩ := hc
    by_cases hshort : Short s handle
    · -- the context object answers, and nothing changes
      have hget : getStrongProxyForHandle (knot (n + 3)) handle s = .ok (s.mContextObject, s) := by
        unfold Short at hshort
        unfold getStrongProxyForHandle
        show (if _ then _ else _ : Prog Process Fault Nat) s = _
        rw [if_pos hshort]
        rfl
      refine ⟨s.mContextObject, (s, l), ?_, ⟨hg, ht, hr⟩, fun handle' heq hnot => ?_⟩
      · unfold Process.call
        simp only [hget]
        unfold Totals.got
        rw [if_pos hshort]
      · cases heq
        exact absurd hshort hnot
    · have hreached := hreach.resolve_left hshort
      obtain ⟨e, s₀, hlook, -⟩ := lookup_reached hr ht hpos hreached
      obtain ⟨r, s', hget, hgot⟩ := wp_never_iff.mp (getStrongProxyForHandle.spec (n := n) hg ht
        (fun b hb => room_to_look.mp (hroom b hb)) hheld (by simp [hlook]))
      have hrouted := hgot.routed hg ht hr hpos hreached hshort
      refine ⟨r, (s', l.got s handle), ?_, ⟨hgot.good hg, hgot.tabled ht, hrouted.1⟩,
        fun handle' heq _ => ?_⟩
      · unfold Process.call
        simp only [hget]
      · cases heq
        exact hrouted.2
  | expungeHandle handle binder =>
    obtain ⟨u, s', hrun, hrouted⟩ := wp_never_iff.mp
      (expungeHandle.spec_routed binder hr ht hc.1 hc.2)
    obtain ⟨hgood, htabled⟩ := expungeHandle_kept hg ht hrun
    refine ⟨0, (s', l), ?_, ⟨hgood, htabled, hrouted⟩, fun _ heq => nomatch heq⟩
    unfold Process.call
    simp only [hrun]
  | other op =>
    obtain ⟨ok, s', hrun, houtcome⟩ := step.spec (n := n) op hg hc
    obtain ⟨htable, hentries, -, hhandles⟩ := houtcome.table hg
    refine ⟨0, _, ?_, ⟨houtcome.good hg, ht.same htable hentries fun a ha => ?_,
      houtcome.routed hg hr⟩, fun _ heq => nomatch heq⟩
    · unfold Process.call
      simp only [hrun]
    · rw [hhandles a ha]
      exact ha
  | outside throttled pingStatus granted =>
    exact ⟨0, _, rfl, ⟨hg.untouched rfl rfl rfl rfl rfl rfl rfl, ht.same rfl rfl fun _ ha => ha,
      ⟨hr.room, hr.distinct, hr.routes, hr.context, hc⟩⟩, fun _ heq => nomatch heq⟩

theorem start_routing (fd : Int) (context : Nat) : Routing (start fd context, Totals.none) where
  good := start_good fd context
  tabled := ⟨by simp [start, VectorBase.ctor], by simp [start]⟩
  routed := by
    have hempty : (start fd context).mHandleToObject.total ≤ VECTOR_INIT_CAPACITY := by
      show (0 : Int) ≤ VECTOR_INIT_CAPACITY
      decide
    have halive : (0 : Int) ≠ STATUS_DEAD_OBJECT := by decide
    refine ⟨hempty, List.nodup_nil, fun handle e b hplace _ => ?_,
      ⟨rfl, Nat.lt_succ_self context⟩, rfl, halive, rfl⟩
    obtain ⟨-, hitem⟩ := entryOf_eq_some.mp hplace
    have hnone : ([] : List Nat)[handle.toInt.toNat]? = some e := hitem
    simp at hnone

/-- In every run whose look-ups come in turn, every call for a handle returns a proxy of that
handle. -/
theorem handles_in_turn_have_their_own_proxies (n : Nat) (fd : Int) (context : Nat)
    (calls : List Call)
    (hcalls : Allowed (call n) InTurn calls (start fd context, Totals.none)) :
    Always (call n) RoutesToOwn calls (start fd context, Totals.none) := by
  refine always_of_inv Routing ?_ ?_ (start_routing fd context) hcalls
  · intro c x h hc
    obtain ⟨b, x', hrun, hrouting, hroutes⟩ := h.call (n := n) hc
    refine ⟨b, x', hrun, fun _ _ _ => hrouting.routed.own_entry, fun handle heq hshort => ?_⟩
    obtain ⟨hnull, hhandle⟩ := hroutes handle heq hshort
    refine ⟨hnull, hhandle, ?_⟩
    rintro rfl
    rw [hrouting.routed.context.1] at hhandle
    cases hhandle
  · intro c x b x' h hc hrun
    obtain ⟨b', x'', hrun', hrouting, -⟩ := h.call (n := n) hc
    rw [hrun'] at hrun
    cases hrun
    exact hrouting

/-- The handles 0, 1 and 2 in turn, one of which comes a second time. -/
theorem handles_in_turn_have_their_own_proxies_for_three :
    Always (call 4) RoutesToOwn [.getStrongProxyForHandle 0, .getStrongProxyForHandle 1,
      .expungeHandle 0 1, .getStrongProxyForHandle 0, .getStrongProxyForHandle 2,
      .getStrongProxyForHandle 1, .expungeHandle 40 2] (start 3 0, Totals.none) :=
  handles_in_turn_have_their_own_proxies 4 3 0 _ (by decide +kernel)

/-- A call for a handle or for its end, and no handle is negative. -/
def OnTable : Call → Prop
  | .getStrongProxyForHandle handle => 0 ≤ handle.toInt
  | .expungeHandle handle _ => 0 ≤ handle.toInt
  | _ => False

/-- Handle 5 comes first, and handle 3 gets its proxy. -/
theorem a_gap_leads_to_another_service :
    ¬∀ (fd : Int) (context : Nat) (calls : List Call), (∀ c ∈ calls, OnTable c) →
      Always (call 4) RoutesToOwn calls (looper fd context, Totals.none) := by
  intro hclaim
  have hrun := hclaim 3 0 [.getStrongProxyForHandle 5, .getStrongProxyForHandle 3]
    (by simp [OnTable])
  have hchecked : Always (call 4) (fun c x r => (match c with
      | .getStrongProxyForHandle handle => decide (Short x.1 handle) ||
        (r.toOption.map fun p => (p.2.1.objects p.1).binder_handle) == some (some handle)
      | _ => true) = true) [.getStrongProxyForHandle 5, .getStrongProxyForHandle 3]
      (looper 3 0, Totals.none) := by
    refine hrun.imp fun c x hroutes => ?_
    obtain ⟨b, x', hr, -, hproxy⟩ := hroutes
    cases c with
    | getStrongProxyForHandle handle =>
      by_cases hshort : Short x.1 handle
      · simp [hshort]
      · have hhandle := (hproxy handle rfl hshort).2.1
        rw [hr]
        simp [Except.toOption, hhandle]
    | expungeHandle => rfl
    | other => rfl
    | outside => rfl
  exact absurd hchecked (by decide +kernel)

end Process

end system_binder
