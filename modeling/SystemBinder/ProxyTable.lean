-- The handle table of a process: what a look-up makes of it, and which path of
-- `getStrongProxyForHandle` a handle takes.
import SystemBinder.ProxyRuns

open prog

namespace system_binder

namespace VectorBase

variable {α : Type} {v v' : VectorBase α} {value : α} {granted : Bool} {n : Nat}

theorem addMany_items (h : v.addMany value granted n = .ok v') :
    v'.m_items = v.m_items ++ List.replicate n value := by
  induction n generalizing v with
  | zero =>
    cases h
    simp
  | succ n ih =>
    unfold addMany at h
    split at h
    · rename_i next hadd
      rw [ih h, add_items hadd, List.append_assoc, List.replicate_succ]
      rfl
    · cases h

/-- `append` adds copies of the value or refuses. -/
theorem append_items {err : Int} (h : v.append value n granted = .ok (err, v')) :
    (err = STATUS_OK ∧ v'.m_items = v.m_items ++ List.replicate n value) ∨
      (err = STATUS_NO_MEMORY ∧ v'.m_items = v.m_items) := by
  unfold append at h
  split at h
  · simp only at h
    split at h
    · cases h
      right
      exact ⟨rfl, resize_items _⟩
    · left
      cases hadd : (v.resize (asInt (v.capacity * 2 + n)) granted).2.addMany value granted n with
      | error e =>
        rw [hadd] at h
        cases h
      | ok w =>
        rw [hadd] at h
        cases h
        refine ⟨rfl, ?_⟩
        rw [addMany_items hadd, resize_items]
  · left
    cases hadd : v.addMany value granted n with
    | error e =>
      rw [hadd] at h
      cases h
    | ok w =>
      rw [hadd] at h
      cases h
      exact ⟨rfl, addMany_items hadd⟩

/-- Where there is room, one copy. -/
theorem append_one (h : v.total < v.capacity) :
    v.append value 1 granted = .ok (STATUS_OK, { v with m_items := v.m_items ++ [value] }) := by
  have hroom : ¬v.capacity < v.total + (1 : Nat) := by omega
  have hadd : v.add value granted = .ok { v with m_items := v.m_items ++ [value] } := by
    have hnotfull : v.capacity ≠ v.total := by omega
    unfold add
    rw [if_neg hnotfull, if_pos h]
  unfold append
  rw [if_neg hroom]
  unfold addMany
  rw [hadd]
  rfl

/-- Beyond the capacity `append` takes the memory and reports that there was none. -/
theorem append_refused (hpos : 0 ≤ v.capacity) (hcapacity : v.capacity < v.total + n)
    (hsmall : v.capacity * 2 + n < 2 ^ 31) : v.append value n true =
      .ok (STATUS_NO_MEMORY, { v with capacity := v.capacity * 2 + n }) := by
  have hresize : v.resize (v.capacity * 2 + n) true =
      (STATUS_NO_MEMORY, { v with capacity := v.capacity * 2 + n }) := by
    unfold resize
    exact if_pos ⟨rfl, by omega⟩
  unfold append
  rw [if_pos hcapacity, asInt_of_small (by omega) hsmall, hresize]
  rfl

end VectorBase

namespace Process

variable {l l' : Totals} {s s' : Process} {b e n : Nat} {handle : BitVec 32}

/-! ## Look-ups -/

/-- The place of the entry of a handle, nothing where the table does not reach. -/
def entryOf (s : Process) (handle : BitVec 32) : Option Nat :=
  if handleSize handle < s.mHandleToObject.m_items.length then
    s.mHandleToObject.get handle.toInt
  else none

/-- The proxy that a call for the handle finds: the binder of its entry, if it has a weak
reference. -/
def found (s : Process) (handle : BitVec 32) : Option Nat :=
  match entryOf s handle with
  | none => none
  | some e =>
    match s.entries[e]? with
    | none => none
    | some entry =>
      if entry.binder ≠ 0 ∧ 0 < (s.objects entry.binder).refs.mWeak.toInt then some entry.binder
      else none

theorem handleSize_of_nonneg (h : 0 ≤ handle.toInt) : handleSize handle = handle.toInt.toNat := by
  have hmsb : handle.msb = false := by
    rw [BitVec.msb_eq_toInt]
    simpa using h
  unfold handleSize
  rw [BitVec.signExtend_eq_setWidth_of_msb_false hmsb, BitVec.toNat_setWidth,
    BitVec.toInt_eq_toNat_of_msb hmsb, Int.toNat_natCast]
  have hlt := handle.isLt
  apply Nat.mod_eq_of_lt
  omega

/-- The process with another table and a new entry. -/
def widened (table : VectorBase Nat) (s : Process) : Process :=
  { s with mHandleToObject := table, entries := s.entries ++ [⟨0⟩] }

/-- A look-up answers from the table, or it widens the table: then it finds the new entry or
nothing. -/
theorem lookup_ok {place : Option Nat} (h : lookupHandleLocked handle s = .ok (place, s')) :
    (handleSize handle < s.mHandleToObject.m_items.length ∧ place = entryOf s handle ∧ s' = s) ∨
    (s.mHandleToObject.m_items.length ≤ handleSize handle ∧ ∃ table k, s' = widened table s ∧
      table.m_items = s.mHandleToObject.m_items ++ List.replicate k s.entries.length ∧
      (place = none ∨ place = some s.entries.length)) := by
  unfold lookupHandleLocked at h
  simp only at h
  split at h
  · rename_i hsize
    right
    refine ⟨hsize, ?_⟩
    split at h
    · cases h
    · rename_i err table happend
      rcases VectorBase.append_items happend with ⟨rfl, hitems⟩ | ⟨rfl, hitems⟩
      · rw [if_neg (by decide)] at h
        cases h
        refine ⟨table, _, rfl, hitems, ?_⟩
        unfold VectorBase.get
        by_cases hpos : 0 ≤ handle.toInt
        · rw [if_pos hpos, hitems, List.getElem?_append_right
            (by rw [← handleSize_of_nonneg hpos]; exact hsize), List.getElem?_replicate]
          split
          · exact Or.inr rfl
          · exact Or.inl rfl
        · rw [if_neg hpos]
          exact Or.inl rfl
      · rw [if_pos (by decide)] at h
        cases h
        exact ⟨table, 0, rfl, by rw [hitems]; simp, Or.inl rfl⟩
  · rename_i hsize
    left
    cases h
    refine ⟨by omega, ?_, rfl⟩
    unfold entryOf
    rw [if_pos (by omega)]

/-! ## The invariant of the table -/

/-- The table leads to entries, and the entries to proxies. -/
structure Tabled (s : Process) : Prop where
  places : ∀ e ∈ s.mHandleToObject.m_items, e < s.entries.length
  binders : ∀ entry ∈ s.entries, entry.binder = 0 ∨
    (s.objects entry.binder).binder_handle.isSome = true

theorem entryOf_lt (ht : Tabled s) (h : entryOf s handle = some e) : e < s.entries.length := by
  unfold entryOf VectorBase.get at h
  split at h
  · split at h
    · exact ht.places e (List.mem_of_getElem? h)
    · cases h
  · cases h

theorem Tabled.widened {table : VectorBase Nat} {k : Nat} (ht : Tabled s)
    (hitems : table.m_items = s.mHandleToObject.m_items ++ List.replicate k s.entries.length) :
    Tabled (widened table s) := by
  refine ⟨fun e he => ?_, fun entry hentry => ?_⟩
  · have hmem : e ∈ table.m_items := he
    have hlength : (Process.widened table s).entries.length = s.entries.length + 1 := by
      simp [Process.widened]
    rw [hitems] at hmem
    rw [hlength]
    rcases List.mem_append.mp hmem with hold | hnew
    · have hlt := ht.places e hold
      omega
    · rw [List.eq_of_mem_replicate hnew]
      omega
  · rcases List.mem_append.mp hentry with hold | hnew
    · exact ht.binders entry hold
    · left
      rw [List.mem_singleton.mp hnew]

/-- What leaves the table alone, and the proxies proxies. -/
theorem Tabled.same (ht : Tabled s) (htable : s'.mHandleToObject = s.mHandleToObject)
    (hentries : s'.entries = s.entries)
    (hproxies : ∀ a, (s.objects a).binder_handle.isSome = true →
      (s'.objects a).binder_handle.isSome = true) : Tabled s' := by
  refine ⟨?_, fun entry hentry => ?_⟩
  · rw [htable, hentries]
    exact ht.places
  · rw [hentries] at hentry
    exact (ht.binders entry hentry).imp id (hproxies _)

theorem Tabled.fixed (ht : Tabled s) (hsame : s'.fixed = s.fixed) : Tabled s' := by
  refine ht.same (congrArg Fixed.mHandleToObject hsame) (congrArg Fixed.entries hsame) fun a ha => ?_
  have hhandle : (s'.objects a).binder_handle = (s.objects a).binder_handle :=
    congrFun (congrArg Fixed.handles hsame) a
  rw [hhandle]
  exact ha

/-- Another binder in an entry. -/
theorem Tabled.stored (ht : Tabled s)
    (hb : b = 0 ∨ (s.objects b).binder_handle.isSome = true) :
    Tabled { s with entries := s.entries.set e ⟨b⟩ } := by
  refine ⟨fun place hplace => ?_, fun entry hentry => ?_⟩
  · show place < (s.entries.set e ⟨b⟩).length
    rw [List.length_set]
    exact ht.places place hplace
  · rcases List.mem_or_eq_of_mem_set hentry with hold | rfl
    · exact ht.binders entry hold
    · exact hb

/-- Reads an entry that there is. -/
theorem loadEntry.spec {entry : HandleEntry} {Q : HandleEntry → Process → Prop} {E : Fault → Prop}
    (h : s.entries[e]? = some entry) : wp (loadEntry e) Q E s ↔ Q entry s := by
  unfold wp loadEntry
  rw [h]

/-! ## A proxy that is found -/

theorem Has.weakCount {t : Totals} (h : Has t s) :
    (s.objects b).refs.mWeak.toInt = t.strong b + t.weak b := by
  have hsmall := h.small b
  rw [h.refs b]
  show (BitVec.ofNat 32 (t.strong b + t.weak b)).toInt = _
  rw [toInt_ofNat_small (by omega)]
  simp

theorem attemptIncWeak.effect {k : Knot} (h : Has (l.withTemps s) s)
    (hroom : (l.withTemps s).strong b + ((l.withTemps s).weak b + 1) < 2 ^ 20) :
    wp (refBase k b).attemptIncWeak (fun ok s' =>
      if 0 < (s.objects b).refs.mWeak.toInt then
        ok = true ∧ Effect l (l.addWeak b) s s' ∧ l.withTemps s' = l.withTemps s
      else ok = false ∧ s' = s) never s := by
  rw [RefBase.attemptIncWeak.spec (h.refs b) (h.small b), h.weakCount]
  split
  · rw [if_pos (by omega)]
    exact ⟨rfl, Effect.of_moved (Moved.addWeak h hroom) Told.nil, rfl⟩
  · rw [if_neg (by omega)]
    exact ⟨rfl, rfl⟩

/-- The weak reference of a look-up comes and goes. -/
theorem Totals.lookUp (l : Totals) (b : Nat) :
    ((l.addWeak b).addStrong b).takeWeak b = l.addStrong b := by
  unfold Totals.takeWeak Totals.addStrong Totals.addWeak
  simp [Totals.setWeak, Totals.setStrong]

/-- The path that finds a proxy hands out one strong reference. -/
theorem proxyAt.spec_found (hg : Good (s, l)) (hentry : s.entries[e]? = some ⟨b⟩) (hb : b ≠ 0)
    (hweak : 0 < (s.objects b).refs.mWeak.toInt) (hlive : Live (s, l) b)
    (hroom : (l.withTemps s).strong b + (l.withTemps s).weak b + 3 < 2 ^ 20) :
    wp (proxyAt (knot (n + 3)) e handle)
      (fun r s' => r = b ∧ Good (s', l.addStrong b) ∧ s'.fixed = s.fixed) never s := by
  have hledger : ∀ a, s.next ≤ a → a ≠ b := fun a ha => hg.ne_of_live hlive ha
  unfold proxyAt
  rw [wp_bind, loadEntry.spec hentry, wp_bind]
  unfold isGone
  rw [if_neg hb, wp_bind]
  refine wp_imp (attemptIncWeak.effect (l := l) (b := b) hg.has
    (show (l.withTemps s).strong b + ((l.withTemps s).weak b + 1) < 2 ^ 20 by omega))
    fun ok s₁ hok => ?_
  rw [if_pos hweak] at hok
  obtain ⟨rfl, hlooked, htemps⟩ := hok
  have hg₁ : Good (s₁, l.addWeak b) :=
    hg.effect hlooked fun a ha => ⟨rfl, Totals.weak_setWeak_ne l _ (hledger a ha)⟩
  have hroom₁ : ((l.addWeak b).withTemps s₁).strong b + ((l.addWeak b).withTemps s₁).weak b + 2 <
      2 ^ 20 := by
    rw [Totals.addWeak, Totals.withTemps_setWeak, Totals.strong_setWeak, Totals.weak_setWeak,
      htemps]
    have htotal : l.weak b + s₁.mPostWriteWeakDerefs.count b = (l.withTemps s).weak b :=
      congrArg (fun t => t.weak b) htemps
    omega
  rw [wp_pure, if_neg (by decide)]
  unfold reviveProxy
  rw [wp_bind]
  refine wp_imp (forceIncStrong.effect hg₁.has hroom₁) fun _ s₂ hforced => ?_
  have hg₂ : Good (s₂, (l.addWeak b).addStrong b) :=
    hg₁.effect hforced fun a ha => addStrong_same _ (hledger a (by
      rw [← show s₁.next = s.next from congrArg Fixed.next hlooked.same]
      exact ha))
  rw [wp_bind]
  refine wp_imp (decWeak.effect hg₂.has (by simp [Totals.addWeak, Totals.addStrong]))
    fun _ s₃ hgone => ?_
  have hg₃ : Good (s₃, ((l.addWeak b).addStrong b).takeWeak b) :=
    hg₂.effect hgone fun a ha => ⟨rfl, Totals.weak_setWeak_ne _ _ (hledger a (by
      rw [← show s₁.next = s.next from congrArg Fixed.next hlooked.same,
        ← show s₂.next = s₁.next from congrArg Fixed.next hforced.same]
      exact ha))⟩
  rw [Totals.lookUp] at hg₃
  rw [wp_pure]
  exact ⟨rfl, hg₃, hgone.same.trans (hforced.same.trans hlooked.same)⟩

/-! ## A proxy that is created -/

/-- The process with a binder in an entry. -/
def stored (e b : Nat) (s : Process) : Process := { s with entries := s.entries.set e ⟨b⟩ }

theorem fixed_stored (h : s'.fixed = s.fixed) : (stored e b s').fixed = (stored e b s).fixed := by
  have hentries : s'.entries = s.entries := congrArg Fixed.entries h
  have hstored : ∀ t : Process, (stored e b t).fixed =
      { t.fixed with entries := t.entries.set e ⟨b⟩ } := fun _ => rfl
  rw [hstored, hstored, h, hentries]

theorem fixed_allocated (h : s'.fixed = s.fixed) :
    (allocated handle s').fixed = (allocated handle s).fixed := by
  have hnext : s'.next = s.next := congrArg Fixed.next h
  have hallocated : ∀ t : Process, (allocated handle t).fixed = { t.fixed with
      handles := Function.update t.fixed.handles t.next (some handle)
      modes := Function.update t.fixed.modes t.next OBJECT_LIFETIME_WEAK
      next := t.next + 1 } := by
    intro t
    unfold Process.fixed allocated
    congr 1
    · funext a
      by_cases ha : a = t.next
      · subst ha
        simp
      · simp [ha]
    · funext a
      by_cases ha : a = t.next
      · subst ha
        simp [WeakrefImpl.extendObjectLifetime, WeakrefImpl.ctor, OBJECT_LIFETIME_STRONG]
      · simp [ha]
  rw [hallocated, hallocated, h, hnext]

/-- What the creating path leaves behind: nothing of a dead context manager, NULL for a process
with too many proxies, and a new proxy otherwise. Nobody has a strong reference on it. -/
structure Created (s : Process) (l : Totals) (e : Nat) (handle : BitVec 32) (r : Nat)
    (s' : Process) : Prop where
  good : Good (s', l)
  outcome :
    (r = 0 ∧ (handle = 0 ∧ s.pingStatus = STATUS_DEAD_OBJECT) ∧ s'.fixed = s.fixed) ∨
    (r = 0 ∧ s.throttled = true ∧ s'.fixed = (stored e 0 s).fixed) ∨
    (r = s.next ∧ s.throttled = false ∧ s'.fixed = (stored e s.next (allocated handle s)).fixed)

theorem createAt.spec (hg : Good (s, l)) :
    wp (createAt (knot (n + 2)) e handle) (Created s l e handle) never s := by
  unfold createAt create
  rw [wp_bind, wp_bind, wp_thisProcess]
  by_cases hthrottled : s.throttled = true
  · rw [if_pos hthrottled, wp_pure, wp_bind]
    refine ⟨hg.untouched rfl rfl rfl rfl rfl rfl rfl, ?_⟩
    right
    left
    exact ⟨rfl, hthrottled, rfl⟩
  · rw [if_neg hthrottled]
    refine wp_imp (newProxy.effect hg) fun b s₁ ⟨hb, heffect⟩ => ?_
    subst hb
    have hg₁ : Good (s₁, l) := (Good.allocated hg).effect heffect fun _ _ => ⟨rfl, rfl⟩
    rw [wp_bind]
    refine ⟨hg₁.untouched rfl rfl rfl rfl rfl rfl rfl, ?_⟩
    right
    right
    refine ⟨rfl, by simpa using hthrottled, ?_⟩
    exact fixed_stored heffect.same

theorem Created.of_same {r : Nat} {s₁ : Process} (h : Created s₁ l e handle r s')
    (hsame : s₁.fixed = s.fixed) : Created s l e handle r s' := by
  have hnext : s₁.next = s.next := congrArg Fixed.next hsame
  have hping : s₁.pingStatus = s.pingStatus := congrArg Fixed.pingStatus hsame
  have hthrottled : s₁.throttled = s.throttled := congrArg Fixed.throttled hsame
  refine ⟨h.good, ?_⟩
  rcases h.outcome with ⟨hr, hdead, hfixed⟩ | ⟨hr, hmany, hfixed⟩ | ⟨hr, hfew, hfixed⟩
  · left
    rw [hping] at hdead
    exact ⟨hr, hdead, hfixed.trans hsame⟩
  · right
    left
    rw [hthrottled] at hmany
    exact ⟨hr, hmany, hfixed.trans (fixed_stored hsame)⟩
  · right
    right
    rw [hthrottled] at hfew
    rw [hnext] at hr hfixed
    exact ⟨hr, hfew, hfixed.trans (fixed_stored (fixed_allocated hsame))⟩

/-- The ping hands the commands to the driver. -/
theorem ping.spec (hg : Good (s, l)) (hheld : Held (s, l)) :
    wp (ping (knot (n + 3))) (fun status s' => status = s.pingStatus ∧ Good (s', l) ∧
      s'.fixed = s.fixed) never s := by
  unfold ping
  rw [wp_bind, wp_write, wp_bind]
  generalize hcmd : OutCommand.BC_TRANSACTION _ = cmd
  have hplain : plain cmd = true := by
    rw [← hcmd]
    rfl
  have hwrote : Good (wrote cmd s, l) :=
    hg.effect (Effect.of_moved (Moved.plain hg.has hplain) (Told.plain hplain))
      fun _ _ => ⟨rfl, rfl⟩
  have hheld' : Held (wrote cmd s, l) := hheld
  show wp (talkWithDriver (knot (n + 2))) _ _ _
  by_cases hopen : (wrote cmd s).mDriverFD < 0
  · rw [talkWithDriver.spec_closed hopen, wp_bind, wp_thisProcess, wp_pure]
    exact ⟨rfl, hwrote, rfl⟩
  · refine wp_imp (talkWithDriver.spec_talks (n := n + 1) hwrote.has (hheld'.calm hopen))
      fun _ s₁ htalks => ?_
    have hflushed := Talks.flushed hwrote.has htalks
    rw [wp_bind, wp_thisProcess, wp_pure]
    exact ⟨congrArg Fixed.pingStatus hflushed.same, hwrote.flushed hflushed, hflushed.same⟩

theorem createProxy.spec (hg : Good (s, l)) (hheld : handle = 0 → Held (s, l)) :
    wp (createProxy (knot (n + 3)) e handle) (Created s l e handle) never s := by
  unfold createProxy
  by_cases hzero : handle = 0
  · rw [if_pos hzero, wp_bind]
    refine wp_imp (ping.spec hg (hheld hzero)) fun status s₁ ⟨hstatus, hg₁, hsame⟩ => ?_
    split
    · rename_i hdead
      rw [wp_pure]
      refine ⟨hg₁, ?_⟩
      left
      exact ⟨rfl, ⟨hzero, hstatus.symm.trans hdead⟩, hsame⟩
    · exact wp_imp (createAt.spec (n := n + 1) hg₁) fun r s₂ hcreated => hcreated.of_same hsame
  · rw [if_neg hzero]
    exact createAt.spec (n := n + 1) hg

/-- The path where nothing is found. -/
theorem proxyAt.spec_gone {entry : HandleEntry} (hg : Good (s, l))
    (hentry : s.entries[e]? = some entry)
    (hgone : entry.binder = 0 ∨ ¬0 < (s.objects entry.binder).refs.mWeak.toInt)
    (hheld : handle = 0 → Held (s, l)) :
    wp (proxyAt (knot (n + 3)) e handle) (Created s l e handle) never s := by
  have hisgone : wp (isGone (knot (n + 3)) entry.binder)
      (fun gone s' => gone = true ∧ s' = s) never s := by
    unfold isGone
    by_cases hnull : entry.binder = 0
    · rw [if_pos hnull, wp_pure]
      exact ⟨rfl, rfl⟩
    · have hnone := hgone.resolve_left hnull
      rw [hg.has.weakCount] at hnone
      rw [if_neg hnull, wp_bind,
        RefBase.attemptIncWeak.spec (hg.has.refs entry.binder) (hg.has.small entry.binder),
        if_neg (by omega), wp_pure]
      exact ⟨rfl, rfl⟩
  unfold proxyAt
  rw [wp_bind, loadEntry.spec hentry, wp_bind]
  refine wp_imp hisgone fun gone s' h => ?_
  obtain ⟨rfl, rfl⟩ := h
  rw [if_pos rfl]
  exact createProxy.spec hg hheld

/-! ## The look-up and its two paths -/

/-- The context object answers for handle 0. -/
def Short (s : Process) (handle : BitVec 32) : Prop := handle = 0 ∧ s.mContextObject ≠ 0

instance (s : Process) (handle : BitVec 32) : Decidable (Short s handle) := by
  unfold Short
  infer_instance

/-- How `getStrongProxyForHandle` comes to its result. -/
inductive Got (s : Process) (l : Totals) (handle : BitVec 32) : Nat → Process → Prop
  | short (hshort : Short s handle) : Got s l handle s.mContextObject s
  | found {b : Nat} {s' : Process} (hshort : ¬Short s handle) (hfound : found s handle = some b)
      (hg : Good (s', l.addStrong b)) (hsame : s'.fixed = s.fixed) : Got s l handle b s'
  | refused {s₀ : Process} (hshort : ¬Short s handle) (hnone : Process.found s handle = none)
      (hlook : lookupHandleLocked handle s = .ok (none, s₀)) : Got s l handle s.mContextObject s₀
  | created {s₀ s' : Process} {e r : Nat} (hshort : ¬Short s handle)
      (hnone : Process.found s handle = none)
      (hlook : lookupHandleLocked handle s = .ok (some e, s₀))
      (h : Created s₀ l e handle r s') : Got s l handle r s'

theorem Good.looked {place : Option Nat} {s₀ : Process} (hg : Good (s, l))
    (h : lookupHandleLocked handle s = .ok (place, s₀)) : Good (s₀, l) := by
  rcases lookup_ok h with ⟨-, -, rfl⟩ | ⟨-, table, k, rfl, -, -⟩
  · exact hg
  · exact hg.untouched rfl rfl rfl rfl rfl rfl rfl

theorem Tabled.looked {place : Option Nat} {s₀ : Process} (ht : Tabled s)
    (h : lookupHandleLocked handle s = .ok (place, s₀)) : Tabled s₀ := by
  rcases lookup_ok h with ⟨-, -, rfl⟩ | ⟨-, table, k, rfl, hitems, -⟩
  · exact ht
  · exact ht.widened hitems

/-- A call that finds a proxy returns it. -/
theorem getStrongProxyForHandle.spec_found (hg : Good (s, l)) (ht : Tabled s)
    (hshort : ¬Short s handle) (hfound : found s handle = some b)
    (hroom : (l.withTemps s).strong b + (l.withTemps s).weak b + 3 < 2 ^ 20) :
    wp (getStrongProxyForHandle (knot (n + 3)) handle)
      (fun r s' => r = b ∧ Good (s', l.addStrong b) ∧ s'.fixed = s.fixed) never s := by
  unfold Short at hshort
  unfold getStrongProxyForHandle
  rw [wp_bind, wp_thisProcess, if_neg hshort, wp_bind]
  unfold found at hfound
  cases hplace : entryOf s handle with
  | none => simp [hplace] at hfound
  | some e =>
    rw [hplace] at hfound
    have hlook : lookupHandleLocked handle s = .ok (some e, s) := by
      unfold entryOf at hplace
      split at hplace
      · rename_i hsize
        unfold lookupHandleLocked
        simp only
        rw [if_neg (by omega), hplace]
      · cases hplace
    have hlt := entryOf_lt ht hplace
    have hentry : s.entries[e]? = some s.entries[e] := List.getElem?_eq_getElem hlt
    simp only [hentry] at hfound
    split at hfound
    · rename_i hlives
      have hbinder : s.entries[e].binder = b := Option.some.inj hfound
      have hlive : Live (s, l) b := by
        rw [← hbinder]
        exact (ht.binders _ (List.getElem_mem hlt)).resolve_left hlives.1
      rw [hbinder] at hlives
      rw [wp_of_ok hlook]
      exact proxyAt.spec_found hg (by rw [hentry, ← hbinder]) hlives.1 hlives.2 hlive hroom
    · cases hfound

/-- A call returns, unless the look-up fails. -/
theorem getStrongProxyForHandle.spec {E : Fault → Prop} (hg : Good (s, l)) (ht : Tabled s)
    (hroom : ∀ b, found s handle = some b →
      (l.withTemps s).strong b + (l.withTemps s).weak b + 3 < 2 ^ 20)
    (hheld : handle = 0 → Held (s, l)) (hE : ∀ e, lookupHandleLocked handle s = .error e → E e) :
    wp (getStrongProxyForHandle (knot (n + 3)) handle) (Got s l handle) E s := by
  unfold getStrongProxyForHandle
  rw [wp_bind, wp_thisProcess]
  split
  · rename_i hshort
    rw [wp_pure]
    exact .short hshort
  rename_i hshort
  cases hfound : found s handle with
  | some b =>
    have hcall := getStrongProxyForHandle.spec_found (n := n) hg ht hshort hfound (hroom b hfound)
    unfold getStrongProxyForHandle at hcall
    rw [wp_bind, wp_thisProcess, if_neg hshort] at hcall
    refine wp_mono hcall (fun r s' ⟨hr, hg', hsame⟩ => ?_) fun _ h => h.elim
    rw [hr]
    exact .found hshort hfound hg' hsame
  | none =>
    rw [wp_bind]
    refine wp_of_result (fun place s₀ hlook => ?_) hE
    cases place with
    | none =>
      rw [wp_pure]
      exact .refused hshort hfound hlook
    | some e =>
      have hcreated : ∀ {entry : HandleEntry}, s₀.entries[e]? = some entry →
          (entry.binder = 0 ∨ ¬0 < (s₀.objects entry.binder).refs.mWeak.toInt) →
          Held (s₀, l) ∨ handle ≠ 0 →
          wp (proxyAt (knot (n + 3)) e handle) (Got s l handle) E s₀ := by
        intro entry hentry hgone hheld₀
        refine wp_mono (proxyAt.spec_gone (hg.looked hlook) hentry hgone
          fun hzero => hheld₀.resolve_right fun hne => hne hzero) (fun r s' hcreated => ?_)
          fun _ h => h.elim
        exact .created hshort hfound hlook hcreated
      have hheld' : Held (s, l) ∨ handle ≠ 0 := by
        by_cases hzero : handle = 0
        · exact Or.inl (hheld hzero)
        · exact Or.inr hzero
      rcases lookup_ok hlook with ⟨-, hplace, rfl⟩ | ⟨hsize, table, k, rfl, hitems, hplace⟩
      · have hlt := entryOf_lt ht hplace.symm
        have hentry : s₀.entries[e]? = some s₀.entries[e] := List.getElem?_eq_getElem hlt
        refine hcreated hentry ?_ hheld'
        unfold found at hfound
        rw [← hplace] at hfound
        simp only [hentry] at hfound
        split at hfound
        · cases hfound
        · rename_i hlives
          by_cases hnull : s₀.entries[e].binder = 0
          · exact Or.inl hnull
          · exact Or.inr fun hweak => hlives ⟨hnull, hweak⟩
      · have he : e = s.entries.length := by
          rcases hplace with hplace | hplace
          · cases hplace
          · exact Option.some.inj hplace
        have hentry : (Process.widened table s).entries[e]? = some ⟨0⟩ := by
          rw [he]
          simp [Process.widened]
        exact hcreated hentry (Or.inl rfl) hheld'

end Process

end system_binder
