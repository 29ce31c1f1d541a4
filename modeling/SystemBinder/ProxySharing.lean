-- The calls on the handle table among everything else that a thread does: who gets a strong
-- reference on a proxy, and how long a handle keeps its proxy.
import SystemBinder.ProxyCommands
import SystemBinder.ProxyTable

open prog

namespace system_binder

namespace Process

/-! ## The run -/

/-- The calls on the handle table, what else the thread does, and what the environment says of
throttling, of the context manager and of memory. -/
inductive Call
  | getStrongProxyForHandle (handle : BitVec 32)
  | expungeHandle (handle : BitVec 32) (binder : Nat)
  | other (op : Op)
  | outside (throttled : Bool) (pingStatus : Int) (granted : Bool)
deriving DecidableEq, Repr

/-- The reference that a call for the handle adds to those of the users: one on the proxy that
it finds. -/
def Totals.got (l : Totals) (s : Process) (handle : BitVec 32) : Totals :=
  if Short s handle then l
  else
    match found s handle with
    | Option.none => l
    | some b => l.addStrong b

/-- One call, with the binder that `getStrongProxyForHandle` returns. -/
def call (n : Nat) (c : Call) : Prog (Process × Totals) Fault Nat := fun x =>
  match c with
  | .getStrongProxyForHandle handle =>
    match getStrongProxyForHandle (knot (n + 3)) handle x.1 with
    | .ok (b, s') => .ok (b, (s', x.2.got x.1 handle))
    | .error e => .error e
  | .expungeHandle handle binder =>
    match expungeHandle handle binder x.1 with
    | .ok (_, s') => .ok (0, (s', x.2))
    | .error e => .error e
  | .other op =>
    match step n op x with
    | .ok (_, x') => .ok (0, x')
    | .error e => .error e
  | .outside throttled pingStatus granted => .ok (0, ({ x.1 with
      throttled := throttled, pingStatus := pingStatus, granted := granted }, x.2))

/-- The references on `a` stay below `MAX_COUNT` with those that a look-up takes. -/
def RoomToLook (x : Process × Totals) (a : Nat) : Prop :=
  (x.2.withTemps x.1).strong a + (x.2.withTemps x.1).weak a + 2 < MAX_COUNT.toNat

/-- The users are disciplined, the destructor of a proxy comes after its last reference, and
what waits is held when the driver takes the commands. -/
def Sound (c : Call) (x : Process × Totals) : Prop :=
  match c with
  | .getStrongProxyForHandle handle =>
    (∀ b ∈ found x.1 handle, RoomToLook x b) ∧ (handle = 0 → Held x)
  | .expungeHandle _ binder =>
    (x.2.withTemps x.1).strong binder = 0 ∧ (x.2.withTemps x.1).weak binder = 0
  | .other op => Respects op x
  | .outside _ _ _ => True

instance (c : Call) (x : Process × Totals) : Decidable (Sound c x) := by
  unfold Sound RoomToLook Held
  cases c <;> infer_instance

variable {l l' : Totals} {s s' : Process} {a b e n : Nat} {handle : BitVec 32}

/-! ## The invariant -/

theorem room_to_look : RoomToLook (s, l) a ↔
    (l.withTemps s).strong a + (l.withTemps s).weak a + 3 < 2 ^ 20 := by
  unfold RoomToLook
  rw [show MAX_COUNT.toNat = 2 ^ 20 - 1 from rfl]
  simp only
  omega

/-- An operation leaves the table and its proxies alone. -/
theorem Outcome.table {op : Op} {ok : Bool} (hg : Good (s, l)) (h : Outcome s l op ok s') :
    s'.mHandleToObject = s.mHandleToObject ∧ s'.entries = s.entries ∧
      s'.mContextObject = s.mContextObject ∧ ∀ a, (s.objects a).binder_handle.isSome = true →
        (s'.objects a).binder_handle = (s.objects a).binder_handle := by
  have hsame : ∀ {t t' : Process}, t'.fixed = t.fixed →
      t'.mHandleToObject = t.mHandleToObject ∧ t'.entries = t.entries ∧
        t'.mContextObject = t.mContextObject ∧
        ∀ a, (t'.objects a).binder_handle = (t.objects a).binder_handle :=
    fun hfixed => ⟨congrArg Fixed.mHandleToObject hfixed, congrArg Fixed.entries hfixed,
      congrArg Fixed.mContextObject hfixed, fun a => congrFun (congrArg Fixed.handles hfixed) a⟩
  cases h with
  | effect _ _ h =>
    obtain ⟨htable, hentries, hcontext, hhandles⟩ := hsame h.same
    exact ⟨htable, hentries, hcontext, fun a _ => hhandles a⟩
  | born h =>
    obtain ⟨htable, hentries, hcontext, hhandles⟩ := hsame h.same
    refine ⟨htable, hentries, hcontext, fun a ha => ?_⟩
    have hne : a ≠ s.next := (hg.ne_of_live ha le_rfl).symm
    rw [hhandles]
    exact congrArg BinderObject.binder_handle (Function.update_of_ne hne _ s.objects)
  | talks _ h =>
    obtain ⟨htable, hentries, hcontext, hhandles⟩ := hsame (Talks.flushed hg.has h).same
    exact ⟨htable, hentries, hcontext, fun a _ => hhandles a⟩
  | looper => exact ⟨rfl, rfl, rfl, fun _ _ => rfl⟩
  | serving => exact ⟨rfl, rfl, rfl, fun _ _ => rfl⟩

theorem Created.tabled {r : Nat} (ht : Tabled s) (h : Created s l e handle r s') : Tabled s' := by
  rcases h.outcome with ⟨-, -, hfixed⟩ | ⟨-, -, hfixed⟩ | ⟨-, -, hfixed⟩
  · exact ht.fixed hfixed
  · exact (ht.stored (Or.inl rfl)).fixed hfixed
  · have hself : ((allocated handle s).objects s.next).binder_handle = some handle := by
      unfold allocated
      simp
    have hnew : Tabled (allocated handle s) := by
      refine ht.same rfl rfl fun a ha => ?_
      by_cases hnext : a = s.next
      · rw [hnext, hself]
        rfl
      · have hold : (allocated handle s).objects a = s.objects a :=
          Function.update_of_ne hnext _ _
        rw [hold]
        exact ha
    refine (hnew.stored (Or.inr ?_)).fixed hfixed
    rw [hself]
    rfl

/-! ## What a call leaves in the table -/

/-- Where the entry of a handle is, it stays, and it keeps its binder while that is held. -/
structure Retains (held : Nat → Prop) (s s' : Process) : Prop where
  context : s'.mContextObject = s.mContextObject
  places : ∀ handle e, entryOf s handle = some e → entryOf s' handle = some e
  binders : ∀ e b : Nat, s.entries[e]? = some ⟨b⟩ → b ≠ 0 → held b → s'.entries[e]? = some ⟨b⟩

variable {held : Nat → Prop} {s'' : Process}

theorem Retains.trans (h : Retains held s s') (h' : Retains held s' s'') : Retains held s s'' where
  context := h'.context.trans h.context
  places := fun handle e he => h'.places handle e (h.places handle e he)
  binders := fun e b he hb hheld => h'.binders e b (h.binders e b he hb hheld) hb hheld

/-- What leaves the table alone retains it. -/
theorem Retains.same (hcontext : s'.mContextObject = s.mContextObject)
    (htable : s'.mHandleToObject = s.mHandleToObject) (hentries : s'.entries = s.entries) :
    Retains held s s' := by
  refine ⟨hcontext, fun handle e he => ?_, fun e b he _ _ => ?_⟩
  · unfold entryOf
    rw [htable]
    exact he
  · rw [hentries]
    exact he

theorem Retains.fixed (hsame : s'.fixed = s.fixed) : Retains held s s' :=
  .same (congrArg Fixed.mContextObject hsame) (congrArg Fixed.mHandleToObject hsame)
    (congrArg Fixed.entries hsame)

theorem Retains.widened {table : VectorBase Nat} {k : Nat} (hitems : table.m_items =
    s.mHandleToObject.m_items ++ List.replicate k s.entries.length) :
    Retains held s (widened table s) := by
  refine ⟨rfl, fun handle e he => ?_, fun e b he _ _ => ?_⟩
  · unfold entryOf VectorBase.get at he ⊢
    split at he
    · rename_i hsize
      split at he
      · rename_i hpos
        rw [handleSize_of_nonneg hpos] at hsize
        have htable : (Process.widened table s).mHandleToObject = table := rfl
        rw [htable, handleSize_of_nonneg hpos, hitems, List.length_append, if_pos (by omega),
          if_pos hpos, List.getElem?_append_left hsize]
        exact he
      · cases he
    · cases he
  · have hlt : e < s.entries.length := (List.getElem?_eq_some_iff.mp he).1
    show (s.entries ++ [⟨0⟩])[e]? = some ⟨b⟩
    rw [List.getElem?_append_left hlt]
    exact he

theorem Retains.looked {place : Option Nat} (h : lookupHandleLocked handle s = .ok (place, s')) :
    Retains held s s' := by
  rcases lookup_ok h with ⟨-, -, rfl⟩ | ⟨-, table, k, rfl, hitems, -⟩
  · exact .same rfl rfl rfl
  · exact .widened hitems

/-- A binder stored where none was held. -/
theorem Retains.stored (hnot : ∀ c, s.entries[e]? = some ⟨c⟩ → c ≠ 0 → ¬held c) :
    Retains held s (stored e b s) := by
  refine ⟨rfl, fun _ _ he => he, fun e' c he' hc hheld => ?_⟩
  show (s.entries.set e ⟨b⟩)[e']? = some ⟨c⟩
  by_cases hee : e' = e
  · rw [hee] at he'
    exact absurd hheld (hnot c he' hc)
  · rw [List.getElem?_set_ne (Ne.symm hee)]
    exact he'

/-- Who holds a strong reference keeps the weak count up: an entry where nothing is found has no
held binder. -/
theorem not_held {s₀ : Process} (hg : Good (s, l)) (hnone : found s handle = none)
    (hlook : lookupHandleLocked handle s = .ok (some e, s₀)) (c : Nat)
    (hc : s₀.entries[e]? = some ⟨c⟩) (hnull : c ≠ 0) : ¬0 < l.strong c := by
  intro hpos
  rcases lookup_ok hlook with ⟨-, hplace, rfl⟩ | ⟨-, table, k, rfl, -, hplace⟩
  · have hweak : 0 < (s₀.objects c).refs.mWeak.toInt := by
      rw [hg.has.weakCount]
      simp only [Totals.withTemps]
      omega
    unfold found at hnone
    rw [← hplace] at hnone
    simp [hc, hnull, hweak] at hnone
  · have he : e = s.entries.length := by
      rcases hplace with hplace | hplace
      · cases hplace
      · exact Option.some.inj hplace
    have hnew : (s.entries ++ [⟨0⟩])[e]? = some ⟨c⟩ := hc
    rw [he, List.getElem?_concat_length] at hnew
    cases hnew
    exact hnull rfl

theorem Created.retains {r : Nat} (h : Created s l e handle r s')
    (hnot : ∀ c, s.entries[e]? = some ⟨c⟩ → c ≠ 0 → ¬held c) : Retains held s s' := by
  rcases h.outcome with ⟨-, -, hfixed⟩ | ⟨-, -, hfixed⟩ | ⟨-, -, hfixed⟩
  · exact .fixed hfixed
  · exact (Retains.stored hnot).trans (.fixed hfixed)
  · have hallocated : Retains held s (allocated handle s) := .same rfl rfl rfl
    have hstored : Retains held (allocated handle s) (stored e s.next (allocated handle s)) :=
      .stored hnot
    exact hallocated.trans (hstored.trans (.fixed hfixed))

/-! ## What a call keeps -/

theorem Got.good {r : Nat} (hg : Good (s, l)) (h : Got s l handle r s') :
    Good (s', l.got s handle) := by
  unfold Totals.got
  cases h with
  | short hshort =>
    rw [if_pos hshort]
    exact hg
  | found hshort hfound hg' =>
    rw [if_neg hshort, hfound]
    exact hg'
  | refused hshort hnone hlook =>
    rw [if_neg hshort, hnone]
    exact hg.looked hlook
  | created hshort hnone _ h =>
    rw [if_neg hshort, hnone]
    exact h.good

theorem Got.tabled {r : Nat} (ht : Tabled s) (h : Got s l handle r s') : Tabled s' := by
  cases h with
  | short => exact ht
  | found _ _ _ hsame => exact ht.fixed hsame
  | refused _ _ hlook => exact ht.looked hlook
  | created _ _ hlook h => exact h.tabled (ht.looked hlook)

theorem Got.retains {r : Nat} (hg : Good (s, l)) (h : Got s l handle r s') :
    Retains (fun b => 0 < l.strong b) s s' := by
  cases h with
  | short => exact .same rfl rfl rfl
  | found _ _ _ hsame => exact .fixed hsame
  | refused _ _ hlook => exact .looked hlook
  | created _ hnone hlook h =>
    exact (Retains.looked hlook).trans (h.retains (not_held hg hnone hlook))

/-- What becomes of the table when the destructor of a proxy clears its entry. -/
theorem expungeHandle_ok {binder : Nat} {u : Unit} (h : expungeHandle handle binder s = .ok (u, s')) :
    ∃ place s₀, lookupHandleLocked handle s = .ok (place, s₀) ∧
      (s' = s₀ ∨ ∃ e, place = some e ∧ s₀.entries[e]? = some ⟨binder⟩ ∧ s' = stored e 0 s₀) := by
  have hrun : wp (expungeHandle handle binder) (fun _ t => ∃ place s₀,
      lookupHandleLocked handle s = .ok (place, s₀) ∧
        (t = s₀ ∨ ∃ e, place = some e ∧ s₀.entries[e]? = some ⟨binder⟩ ∧ t = stored e 0 s₀))
      (fun _ => True) s := by
    unfold expungeHandle
    rw [wp_bind]
    refine wp_of_result (fun place s₀ hlook => ?_) fun _ _ => trivial
    cases place with
    | none =>
      rw [wp_pure]
      exact ⟨none, s₀, hlook, Or.inl rfl⟩
    | some e =>
      rw [wp_bind]
      refine wp_of_result (fun entry s₁ hload => ?_) fun _ _ => trivial
      unfold loadEntry at hload
      split at hload
      · cases hload
      · rename_i hentry
        cases hload
        split
        · rename_i hbinder
          refine ⟨some e, s₀, hlook, Or.inr ⟨e, rfl, ?_, rfl⟩⟩
          rw [hentry, ← hbinder]
        · rw [wp_pure]
          exact ⟨some e, s₀, hlook, Or.inl rfl⟩
  exact wp.of_ok hrun h

theorem expungeHandle_kept {binder : Nat} {u : Unit} (hg : Good (s, l)) (ht : Tabled s)
    (h : expungeHandle handle binder s = .ok (u, s')) : Good (s', l) ∧ Tabled s' := by
  obtain ⟨place, s₀, hlook, rfl | ⟨e, rfl, hentry, rfl⟩⟩ := expungeHandle_ok h
  · exact ⟨hg.looked hlook, ht.looked hlook⟩
  · exact ⟨(Good.looked hg hlook).untouched rfl rfl rfl rfl rfl rfl rfl,
      (ht.looked hlook).stored (Or.inl rfl)⟩

/-- One call keeps the invariant, and the table keeps what is held. -/
theorem call_kept {c : Call} {x x' : Process × Totals} {r : Nat} (hg : Good x) (ht : Tabled x.1)
    (hc : Sound c x) (h : call n c x = .ok (r, x')) :
    Good x' ∧ Tabled x'.1 ∧ Retains (fun b => 0 < x.2.strong b) x.1 x'.1 := by
  cases c with
  | getStrongProxyForHandle handle =>
    unfold call at h
    simp only at h
    split at h
    · rename_i b s' hget
      cases h
      have hgot := (getStrongProxyForHandle.spec (n := n) (l := x.2) (E := fun _ => True) hg ht
        (fun b hb => room_to_look.mp (hc.1 b hb)) hc.2 fun _ _ => trivial).of_ok hget
      exact ⟨hgot.good hg, hgot.tabled ht, hgot.retains hg⟩
    · cases h
  | expungeHandle handle binder =>
    unfold call at h
    simp only at h
    split at h
    · rename_i u s' hrun
      cases h
      obtain ⟨hgood, htabled⟩ := expungeHandle_kept hg ht hrun
      refine ⟨hgood, htabled, ?_⟩
      obtain ⟨place, s₀, hlook, rfl | ⟨e, rfl, hentry, rfl⟩⟩ := expungeHandle_ok hrun
      · exact .looked hlook
      · refine (Retains.looked hlook).trans (.stored ?_)
        -- the proxy that goes is held by nobody
        intro c hbinder _ hpos
        rw [hentry] at hbinder
        cases hbinder
        have hnone := hc.1
        simp only [Totals.withTemps] at hnone
        omega
    · cases h
  | other op =>
    obtain ⟨ok, s', hrun, houtcome⟩ := step.spec (n := n) op hg hc
    unfold call at h
    simp only [hrun] at h
    cases h
    obtain ⟨htable, hentries, hcontext, hhandles⟩ := houtcome.table hg
    refine ⟨houtcome.good hg, ht.same htable hentries fun a ha => ?_,
      .same hcontext htable hentries⟩
    rw [hhandles a ha]
    exact ha
  | outside throttled pingStatus granted =>
    cases h
    exact ⟨hg.untouched rfl rfl rfl rfl rfl rfl rfl, ht.same rfl rfl fun _ ha => ha,
      .same rfl rfl rfl⟩

/-! ## The proxy that is kept -/

theorem found_eq_some : found s handle = some b ↔ ∃ e, entryOf s handle = some e ∧
    s.entries[e]? = some ⟨b⟩ ∧ b ≠ 0 ∧ 0 < (s.objects b).refs.mWeak.toInt := by
  unfold found
  constructor
  · intro h
    split at h
    · cases h
    · rename_i e hplace
      split at h
      · cases h
      · rename_i entry hentry
        split at h
        · rename_i hlives
          cases h
          exact ⟨e, hplace, hentry, hlives⟩
        · cases h
  · rintro ⟨e, hplace, hentry, hlives⟩
    rw [hplace]
    simp only [hentry]
    rw [if_pos hlives]

/-- Somebody holds the proxy at `b`, and the table has it for the handle. -/
structure Keeps (handle : BitVec 32) (b : Nat) (x : Process × Totals) : Prop where
  good : Good x
  tabled : Tabled x.1
  short : ¬Short x.1 handle
  place : ∃ e, entryOf x.1 handle = some e ∧ x.1.entries[e]? = some ⟨b⟩
  notNull : b ≠ 0
  held : 0 < x.2.strong b

theorem Keeps.found {x : Process × Totals} (h : Keeps handle b x) : found x.1 handle = some b := by
  obtain ⟨e, hplace, hentry⟩ := h.place
  refine found_eq_some.mpr ⟨e, hplace, hentry, h.notNull, ?_⟩
  have hpos := h.held
  rw [h.good.has.weakCount]
  simp only [Totals.withTemps]
  omega

/-- As long as one user keeps it, the proxy is held. -/
theorem strong_after (op : Op) (ok : Bool) (hpos : 0 < l.strong b)
    (hkept : op = .decStrong b → 1 < l.strong b) : 0 < (l.after ok op).strong b := by
  have hadd : ∀ a, 0 < (l.addStrong a).strong b := by
    intro a
    unfold Totals.addStrong
    by_cases hab : b = a
    · subst hab
      simp
    · rw [Totals.strong_setStrong_ne _ _ hab]
      exact hpos
  cases op with
  | incStrong a => exact hadd a
  | forceIncStrong a => exact hadd a
  | attemptIncStrong a =>
    show 0 < (if ok = true then l.addStrong a else l).strong b
    split
    · exact hadd a
    · exact hpos
  | decStrong a =>
    unfold Totals.after Totals.takeStrong
    by_cases hab : b = a
    · subst hab
      have hmore := hkept rfl
      rw [Totals.strong_setStrong]
      omega
    · rw [Totals.strong_setStrong_ne _ _ hab]
      exact hpos
  | newProxy | incWeak | decWeak | setLooper | setServing | write | talkWithDriver
  | flushCommands => exact hpos

/-- A call that leaves a user his reference on `b`. -/
def Keeping (b : Nat) (c : Call) (x : Process × Totals) : Prop :=
  Sound c x ∧ (c = .other (.decStrong b) → 1 < x.2.strong b)

instance (b : Nat) (c : Call) (x : Process × Totals) : Decidable (Keeping b c x) := by
  unfold Keeping
  infer_instance

theorem strong_got (hpos : 0 < l.strong b) : 0 < (l.got s handle).strong b := by
  unfold Totals.got
  split
  · exact hpos
  · split
    · exact hpos
    · rename_i a _
      exact strong_after (.incStrong a) true hpos (by simp)

theorem Keeps.next {c : Call} {x x' : Process × Totals} {r : Nat} (h : Keeps handle b x)
    (hc : Keeping b c x) (hrun : call n c x = .ok (r, x')) : Keeps handle b x' := by
  obtain ⟨hg, ht, hretains⟩ := call_kept h.good h.tabled hc.1 hrun
  obtain ⟨e, hplace, hentry⟩ := h.place
  refine ⟨hg, ht, ?_, ⟨e, hretains.places handle e hplace,
    hretains.binders e b hentry h.notNull h.held⟩, h.notNull, ?_⟩
  · unfold Short
    rw [hretains.context]
    exact h.short
  · cases c with
    | getStrongProxyForHandle handle' =>
      unfold call at hrun
      simp only at hrun
      split at hrun
      · cases hrun
        exact strong_got h.held
      · cases hrun
    | expungeHandle handle' binder =>
      unfold call at hrun
      simp only at hrun
      split at hrun
      · cases hrun
        exact h.held
      · cases hrun
    | other op =>
      unfold call at hrun
      simp only at hrun
      obtain ⟨ok, s', hstep, -⟩ := step.spec (n := n) op h.good hc.1
      rw [hstep] at hrun
      cases hrun
      exact strong_after op ok h.held fun hop => hc.2 (by rw [hop])
    | outside => cases hrun; exact h.held

/-! ## The law of sharing -/

/-- The users hold one strong reference more on the proxy at `b`, the temporary references
aside. -/
def HandsOne (s s' : Process) (b : Nat) : Prop :=
  strongCount (s'.objects b).refs + s.mPostWriteStrongDerefs.count b =
    strongCount (s.objects b).refs + s'.mPostWriteStrongDerefs.count b + 1

/-- As long as one user keeps its reference, every call for the handle returns the proxy at
`b`. -/
def StaysWhileKept (n : Nat) (handle : BitVec 32) (b : Nat) (x : Process × Totals) : Prop :=
  ∀ calls, Allowed (call n) (Keeping b) calls x →
    Always (call n) (fun c _ r => c = .getStrongProxyForHandle handle → ∃ x', r = .ok (b, x'))
      calls x

theorem Keeps.stays {x : Process × Totals} (h : Keeps handle b x) : StaysWhileKept n handle b x := by
  intro calls hcalls
  refine always_of_inv (Keeps handle b) ?_ (fun c x r x' hk hc hrun => hk.next hc hrun) h hcalls
  rintro c x hk hc rfl
  obtain ⟨a, s', hget, rfl, -⟩ := wp_never_iff.mp (getStrongProxyForHandle.spec_found (n := n)
    hk.good hk.tabled hk.short hk.found (room_to_look.mp (hc.1.1 b hk.found)))
  refine ⟨(s', x.2.got x.1 handle), ?_⟩
  unfold call
  simp only [hget]

theorem handsOne_iff (h : Good (s, l)) (h' : Good (s', l')) :
    HandsOne s s' b ↔ l'.strong b = l.strong b + 1 := by
  unfold HandsOne
  rw [h.has.strongCount, h'.has.strongCount]
  simp only [Totals.withTemps]
  omega

/-- A call that succeeds hands out one strong reference on its result, which stays the proxy of
the handle while that is kept: so it is for a proxy that the table has, and for no other. -/
def SharesFound (n : Nat) (c : Call) (x : Process × Totals)
    (r : Except Fault (Nat × (Process × Totals))) : Prop :=
  ∀ handle b x', c = .getStrongProxyForHandle handle → ¬Short x.1 handle → r = .ok (b, x') →
    b ≠ 0 →
    ((HandsOne x.1 x'.1 b ∧ StaysWhileKept n handle b x') ↔ (found x.1 handle).isSome = true)

/-- The law at one call. -/
theorem Got.shares {r : Nat} (hg : Good (s, l)) (ht : Tabled s) (h : Got s l handle r s')
    (hshort : ¬Short s handle) (hnull : r ≠ 0) :
    (HandsOne s s' r ∧ StaysWhileKept n handle r (s', l.got s handle)) ↔
      (Process.found s handle).isSome = true := by
  have hgood := h.good hg
  have htabled := h.tabled ht
  have hretains := h.retains hg
  rw [handsOne_iff hg hgood]
  have hgot : Process.found s handle = none → l.got s handle = l := by
    intro hnone
    unfold Totals.got
    rw [if_neg hshort, hnone]
  have hnothing : Process.found s handle = none → (((l.got s handle).strong r = l.strong r + 1 ∧
      StaysWhileKept n handle r (s', l.got s handle)) ↔ (Process.found s handle).isSome = true) := by
    intro hnone
    rw [hgot hnone, hnone]
    constructor
    · rintro ⟨hone, -⟩
      omega
    · intro hsome
      cases hsome
  cases h with
  | short h => exact absurd h hshort
  | found _ hfound _ hsame =>
    have hledger : l.got s handle = l.addStrong r := by
      unfold Totals.got
      rw [if_neg hshort, hfound]
    have hone : (l.addStrong r).strong r = l.strong r + 1 := Totals.strong_setStrong _ _ _
    obtain ⟨e, hplace, hentry, -⟩ := found_eq_some.mp hfound
    have hkeeps : Keeps handle r (s', l.got s handle) := by
      have hfixed : Retains (fun _ => True) s s' := .fixed hsame
      refine ⟨hgood, htabled, ?_, ⟨e, hfixed.places handle e hplace,
        hfixed.binders e r hentry hnull trivial⟩, hnull, ?_⟩
      · unfold Short
        rw [hfixed.context]
        exact hshort
      · rw [hledger, hone]
        omega
    rw [hledger] at hkeeps ⊢
    simp [hone, hkeeps.stays, hfound]
  | refused _ hnone => exact hnothing hnone
  | created _ hnone => exact hnothing hnone

/-- In every run, a call hands out one strong reference exactly where the table has a proxy for
the handle that somebody still refers to. The creating path hands out none. -/
theorem found_proxies_are_handed_out (n : Nat) (fd : Int) (context : Nat) (calls : List Call)
    (hcalls : Allowed (call n) Sound calls (start fd context, Totals.none)) :
    Always (call n) (SharesFound n) calls (start fd context, Totals.none) := by
  refine always_of_inv (fun x => Good x ∧ Tabled x.1) ?_ ?_
    ⟨start_good fd context, by simp [start, VectorBase.ctor], by simp [start]⟩ hcalls
  · rintro c x ⟨hg, ht⟩ hc handle b x' rfl hshort hrun hnull
    unfold call at hrun
    simp only at hrun
    split at hrun
    · rename_i r s' hget
      cases hrun
      exact ((getStrongProxyForHandle.spec (n := n) (l := x.2) (E := fun _ => True) hg ht
        (fun b hb => room_to_look.mp (hc.1 b hb)) hc.2
        fun _ _ => trivial).of_ok hget).shares hg ht hshort hnull
    · cases hrun
  · rintro c x r x' ⟨hg, ht⟩ hc hrun
    obtain ⟨hgood, htabled, -⟩ := call_kept hg ht hc hrun
    exact ⟨hgood, htabled⟩

/-- A proxy is created, its creator takes a reference, and another caller finds it. -/
theorem found_proxies_are_handed_out_twice :
    Always (call 4) (SharesFound 4) [.getStrongProxyForHandle 5, .other (.incStrong 1),
      .getStrongProxyForHandle 5, .other (.decStrong 1), .getStrongProxyForHandle 5]
      (start 3 0, Totals.none) :=
  found_proxies_are_handed_out 4 3 0 _ (by decide +kernel)

/-- A call that succeeds hands out one strong reference on its result, which stays the proxy of
the handle while that is kept. -/
def Shares (n : Nat) (c : Call) (x : Process × Totals)
    (r : Except Fault (Nat × (Process × Totals))) : Prop :=
  ∀ handle b x', c = .getStrongProxyForHandle handle → ¬Short x.1 handle → r = .ok (b, x') →
    b ≠ 0 → HandsOne x.1 x'.1 b ∧ StaysWhileKept n handle b x'

/-- The first call for a handle creates a proxy that nobody has a strong reference on. -/
theorem a_new_proxy_is_not_handed_out :
    ¬∀ (fd : Int) (context : Nat) (calls : List Call),
      Allowed (call 4) Sound calls (start fd context, Totals.none) →
        Always (call 4) (Shares 4) calls (start fd context, Totals.none) := by
  intro hclaim
  have hrun := hclaim 3 0 [.getStrongProxyForHandle 5] (by decide +kernel)
  have hnew : ∃ x', call 4 (.getStrongProxyForHandle 5) (start 3 0, Totals.none) = .ok (1, x') ∧
      strongCount (x'.1.objects 1).refs = 0 := by
    have hcheck : (call 4 (.getStrongProxyForHandle 5) (start 3 0, Totals.none)).toOption.map
        (fun p => (p.1, strongCount (p.2.1.objects 1).refs)) = some (1, 0) := by decide +kernel
    cases hcall : call 4 (.getStrongProxyForHandle 5) (start 3 0, Totals.none) with
    | error e =>
      rw [hcall] at hcheck
      cases hcheck
    | ok p =>
      rw [hcall] at hcheck
      obtain ⟨hb, hcount⟩ := Prod.mk.inj (Option.some.inj hcheck)
      exact ⟨p.2, by rw [← hb], hcount⟩
  obtain ⟨x', hcall, hcount⟩ := hnew
  have hone := (hrun.1 5 1 x' rfl (by decide) hcall (by decide)).1
  unfold HandsOne at hone
  rw [hcount] at hone
  have hfirst : strongCount ((start 3 0).objects 1).refs = 0 := by decide
  simp only [hfirst] at hone
  have hnothing : (start 3 0).mPostWriteStrongDerefs.count 1 = 0 := rfl
  omega

end Process

end system_binder
