-- What the service manager tells others and what it is told: a callback that waits for a service
-- is called, and the services of dead binders go.
import SystemBinder.CpcLookups

open prog Std

set_option linter.unusedSectionVars false

namespace system_binder

namespace CpcServiceManager

variable {B C : Type} [DecidableEq B] [DecidableEq C] {s s' s₁ s₂ : CpcServiceManager B C}
  {events before later : List (Event B C)} {c k n : Name} {b : B} {cb : C} {dead : B → Bool}

/-! ## Callbacks -/

/-- The callbacks that are registered under a name. -/
def listeners (name : Name) (s : CpcServiceManager B C) : List C := s.mNameToCallback.getD name []

/-- The service behind the CPU of a name. -/
def Adds (events : List (Event B C)) (k : Name) : Prop :=
  ∃ name b, .addService name b ∈ events ∧ name.after name.find = k

/-- Between two states the callback was called for the name. -/
def Told (k : Name) (cb : C) (s s' : CpcServiceManager B C) : Prop :=
  ∃ calls, s'.called = s.called ++ calls ∧ (k, cb) ∈ calls

theorem Adds.nil : ¬Adds ([] : List (Event B C)) k := by
  rintro ⟨name, b, hmem, -⟩
  cases hmem

theorem adds_cons {e : Event B C} : Adds (e :: events) k ↔ Adds [e] k ∨ Adds events k := by
  unfold Adds
  simp only [List.mem_cons, List.not_mem_nil, or_false]
  constructor
  · rintro ⟨name, b, hmem | hmem, hk⟩
    · exact .inl ⟨name, b, hmem, hk⟩
    · exact .inr ⟨name, b, hmem, hk⟩
  · rintro (⟨name, b, hmem, hk⟩ | ⟨name, b, hmem, hk⟩)
    · exact ⟨name, b, .inl hmem, hk⟩
    · exact ⟨name, b, .inr hmem, hk⟩

/-- A service stays known, and a new one comes only with `addService`. -/
theorem step_services {e : Event B C} (hk : isValidServiceName k = true)
    (hdied : ∀ who, e ≠ .binderDied who) (hstep : step e s = some s') :
    k ∈ s'.mNameToService ↔ k ∈ s.mNameToService ∨ Adds [e] k := by
  cases e with
  | addService name b =>
    cases hstep
    have hadds : Adds [Event.addService name b] k (C := C) ↔ name.after name.find = k := by
      simp [Adds]
    rw [hadds]
    cases hvalid : isValidServiceName (name.after name.find) with
    | false =>
      rw [addService_of_invalid hvalid]
      have hne : name.after name.find ≠ k := fun heq => by simp [heq, hk] at hvalid
      simp [hne]
    | true =>
      rw [addService_of_valid hvalid]
      simp [TreeMap.mem_insert, or_comm]
  | registerForNotifications name callback =>
    cases hstep
    rw [registerForNotifications_services]
    simp [Adds]
  | unregisterForNotifications name callback =>
    cases hstep
    rw [unregisterForNotifications_services]
    simp [Adds]
  | die binder =>
    simp only [step] at hstep
    split_ifs at hstep
    cases hstep
    simp [Adds]
  | binderDied who => exact absurd rfl (hdied who)

theorem listeners_unregister {name : Name} {callback : Option C} :
    listeners k (s.unregisterForNotifications name callback).2 =
      if name = k then callback.elim (listeners k s) ((listeners k s).erase ·)
      else listeners k s := by
  unfold unregisterForNotifications listeners
  cases callback with
  | none => simp
  | some callback =>
    cases hget : s.mNameToCallback[name]? with
    | none =>
      split_ifs with heq
      · rw [heq] at hget
        simp [TreeMap.getD_eq_getD_getElem?, hget]
      · rfl
    | some found =>
      have hfound : s.mNameToCallback.getD name [] = found := by
        simp [TreeMap.getD_eq_getD_getElem?, hget]
      by_cases hmem : callback ∈ found
      · by_cases hempty : (found.erase callback).isEmpty
        · simp only [hmem, hempty, if_true, TreeMap.getD_erase, Std.compare_eq_iff_eq]
          split_ifs with heq
          · rw [← heq, hfound, Option.elim_some, List.isEmpty_iff.mp hempty]
          · rfl
        · simp only [hmem, hempty, if_true, Bool.false_eq_true, if_false, TreeMap.getD_insert,
            Std.compare_eq_iff_eq]
          split_ifs with heq
          · rw [← heq, hfound, Option.elim_some]
          · rfl
      · simp only [hmem, if_false]
        split_ifs with heq
        · rw [← heq, hfound, Option.elim_some, List.erase_of_not_mem hmem]
        · rfl

/-- What a registration does: the callback is listed, and called if the service is there. -/
theorem registerForNotifications_of_valid {name : Name} {callback : C}
    (h : isValidServiceName name = true) :
    (s.registerForNotifications name (some callback)).2 =
      { s with
        mNameToCallback :=
          s.mNameToCallback.insert name (listeners name s ++ [callback])
        called := s.called ++ if name ∈ s.mNameToService then [(name, callback)] else [] } := by
  unfold registerForNotifications listeners
  rw [if_neg (by simp [h])]
  dsimp only
  simp only [TreeMap.contains_iff_mem]
  split_ifs with hmem
  · simp [onRegistration]
  · simp

theorem registerForNotifications_of_invalid {name : Name} {callback : Option C}
    (h : isValidServiceName name = false ∨ callback = none) :
    (s.registerForNotifications name callback).2 = s := by
  unfold registerForNotifications
  rcases h with h | h
  · simp [h]
  · rw [h]
    split_ifs <;> rfl

/-- A callback stays registered until it is unregistered. -/
theorem step_listeners {e : Event B C} (hkeep : e ≠ .unregisterForNotifications k (some cb))
    (hstep : step e s = some s') (h : cb ∈ listeners k s) : cb ∈ listeners k s' := by
  cases e with
  | addService name b =>
    cases hstep
    cases hvalid : isValidServiceName (name.after name.find) with
    | false => rwa [addService_of_invalid hvalid]
    | true => rwa [addService_of_valid hvalid]
  | registerForNotifications name callback =>
    cases hstep
    rcases callback with _ | callback
    · rwa [registerForNotifications_of_invalid (.inr rfl)]
    cases hvalid : isValidServiceName name with
    | false => rwa [registerForNotifications_of_invalid (.inl hvalid)]
    | true =>
      rw [registerForNotifications_of_valid hvalid]
      unfold listeners at *
      simp only [TreeMap.getD_insert, Std.compare_eq_iff_eq]
      split_ifs with heq
      · rw [heq]
        exact List.mem_append_left _ h
      · exact h
  | unregisterForNotifications name callback =>
    cases hstep
    rw [listeners_unregister]
    split_ifs with heq
    · cases callback with
      | none => exact h
      | some callback =>
        have hne : cb ≠ callback := fun hcb => hkeep (by rw [heq, hcb])
        exact (List.mem_erase_of_ne hne).mpr h
    · exact h
  | die binder =>
    simp only [step] at hstep
    split_ifs at hstep
    cases hstep
    exact h
  | binderDied who =>
    simp only [step] at hstep
    split_ifs at hstep
    cases hstep
    exact h

variable (cb) in
/-- The calls of one step: under a name nobody is called unless its service is known then, and
all its listeners are called when the service is added. -/
theorem step_calls {e : Event B C} (hk : isValidServiceName k = true)
    (hstep : step e s = some s') :
    ∃ calls, s'.called = s.called ++ calls ∧
      ((k, cb) ∈ calls → k ∈ s.mNameToService ∨ Adds [e] k) ∧
      (cb ∈ listeners k s → Adds [e] k → (k, cb) ∈ calls) := by
  have hsilent : ∀ (t : CpcServiceManager B C), t.called = s.called → ¬Adds [e] k →
      ∃ calls, t.called = s.called ++ calls ∧
        ((k, cb) ∈ calls → k ∈ s.mNameToService ∨ Adds [e] k) ∧
        (cb ∈ listeners k s → Adds [e] k → (k, cb) ∈ calls) := fun t ht hnot =>
    ⟨[], by simp [ht], (fun hmem => by cases hmem), fun _ hadds => absurd hadds hnot⟩
  cases e with
  | addService name b =>
    cases hstep
    have hadds : Adds [Event.addService name b] k (C := C) ↔ name.after name.find = k := by
      simp [Adds]
    simp only [hadds] at hsilent ⊢
    cases hvalid : isValidServiceName (name.after name.find) with
    | false =>
      rw [addService_of_invalid hvalid]
      exact hsilent s rfl fun heq => by simp [heq, hk] at hvalid
    | true =>
      rw [addService_of_valid hvalid]
      refine ⟨_, rfl, fun hmem => .inr ?_, fun hcb heq => ?_⟩
      · simp only [List.mem_map, Prod.mk.injEq] at hmem
        obtain ⟨_, -, heq, -⟩ := hmem
        exact heq
      · rw [heq]
        exact List.mem_map_of_mem hcb
  | registerForNotifications name callback =>
    cases hstep
    have hnot : ¬Adds [(.registerForNotifications name callback : Event B C)] k := by simp [Adds]
    rcases callback with _ | callback
    · rw [registerForNotifications_of_invalid (.inr rfl)]
      exact hsilent s rfl hnot
    cases hvalid : isValidServiceName name with
    | false =>
      rw [registerForNotifications_of_invalid (.inl hvalid)]
      exact hsilent s rfl hnot
    | true =>
      rw [registerForNotifications_of_valid hvalid]
      refine ⟨_, rfl, fun hmem => .inl ?_, fun _ hadds => absurd hadds hnot⟩
      split_ifs at hmem with hservice
      · simp only [List.mem_singleton, Prod.mk.injEq] at hmem
        rwa [hmem.1]
      · cases hmem
  | unregisterForNotifications name callback =>
    cases hstep
    refine hsilent _ ?_ (by simp [Adds])
    unfold unregisterForNotifications
    split
    · split_ifs <;> rfl
    · rfl
  | die binder =>
    simp only [step] at hstep
    split_ifs at hstep
    cases hstep
    exact hsilent _ rfl (by simp [Adds])
  | binderDied who =>
    simp only [step] at hstep
    split_ifs at hstep
    cases hstep
    exact hsilent _ rfl (by simp [Adds])

variable (cb) in
/-- The calls of a run of requests. -/
theorem after_calls (hk : isValidServiceName k = true)
    (hdied : ∀ who, .binderDied who ∉ events)
    (hkeep : .unregisterForNotifications k (some cb) ∉ events)
    (h : after step events s = some s') :
    ∃ calls, s'.called = s.called ++ calls ∧
      ((k, cb) ∈ calls → k ∈ s.mNameToService ∨ Adds events k) ∧
      (cb ∈ listeners k s → Adds events k → (k, cb) ∈ calls) := by
  induction events generalizing s with
  | nil =>
    cases h
    exact ⟨[], by simp, (fun hmem => by cases hmem), fun _ hadds => absurd hadds Adds.nil⟩
  | cons e events ih =>
    rw [after_cons, Option.bind_eq_some_iff] at h
    obtain ⟨t, hone, hrest⟩ := h
    simp only [List.mem_cons, not_or] at hdied hkeep
    obtain ⟨first, hfirst, honly, hall⟩ := step_calls cb hk hone
    obtain ⟨rest, hcalled, honly', hall'⟩ := ih (fun who => (hdied who).2) hkeep.2 hrest
    have hservices := step_services hk (fun who => Ne.symm (hdied who).1) hone
    refine ⟨first ++ rest, by rw [hcalled, hfirst, List.append_assoc], fun hmem => ?_, ?_⟩
    · rw [adds_cons]
      rcases List.mem_append.mp hmem with hmem | hmem
      · exact (honly hmem).imp_right .inl
      · rcases honly' hmem with hservice | hadds
        · exact (hservices.mp hservice).imp_right .inl
        · exact .inr (.inr hadds)
    · intro hcb hadds
      rw [List.mem_append]
      rcases adds_cons.mp hadds with hadds | hadds
      · exact .inl (hall hcb hadds)
      · exact .inr (hall' (step_listeners (Ne.symm hkeep.1) hone hcb) hadds)

/-- The services that are known are those that were added. -/
theorem after_services (hk : isValidServiceName k = true)
    (hdied : ∀ who, .binderDied who ∉ events) (h : after step events s = some s') :
    k ∈ s'.mNameToService ↔ k ∈ s.mNameToService ∨ Adds events k := by
  induction events generalizing s with
  | nil =>
    cases h
    simp [Adds.nil]
  | cons e events ih =>
    rw [after_cons, Option.bind_eq_some_iff] at h
    obtain ⟨t, hone, hrest⟩ := h
    simp only [List.mem_cons, not_or] at hdied
    rw [ih (fun who => (hdied who).2) hrest,
      step_services hk (fun who => Ne.symm (hdied who).1) hone, or_assoc, ← adds_cons]

/-- A callback that is registered under `k` is called for `k` exactly where a service is added
whose name behind the CPU is `k`, before or later. -/
theorem told_iff_adds (hk : isValidServiceName k = true)
    (hbefore : after step before (start C dead) = some s₁)
    (hlater : after step (.registerForNotifications k (some cb) :: later) s₁ = some s₂)
    (hdied : ∀ who, .binderDied who ∉ before ++ later)
    (hkeep : .unregisterForNotifications k (some cb) ∉ later) :
    Told k cb s₁ s₂ ↔ Adds (before ++ later) k := by
  simp only [List.mem_append, not_or] at hdied
  have hknown : k ∈ s₁.mNameToService ↔ Adds before k := by
    rw [after_services hk (fun who => (hdied who).1) hbefore]
    simp [start]
  have happend : Adds (before ++ later) k ↔ Adds before k ∨ Adds later k := by
    unfold Adds
    simp only [List.mem_append, or_and_right, exists_or]
  rw [after_cons, Option.bind_eq_some_iff] at hlater
  obtain ⟨t, hone, hrest⟩ := hlater
  obtain ⟨calls, hcalled, honly, hall⟩ :=
    after_calls cb hk (fun who => (hdied who).2) hkeep hrest
  rw [happend, ← hknown]
  cases hone
  rw [registerForNotifications_of_valid hk] at hcalled honly hall
  have hlisted : cb ∈ (s₁.mNameToCallback.insert k (listeners k s₁ ++ [cb])).getD k [] := by simp
  constructor
  · rintro ⟨told, htold, hmem⟩
    have hsame : told = (if k ∈ s₁.mNameToService then [(k, cb)] else []) ++ calls := by
      rw [hcalled, List.append_assoc] at htold
      exact (List.append_cancel_left htold).symm
    rw [hsame, List.mem_append] at hmem
    rcases hmem with hmem | hmem
    · split_ifs at hmem with hservice
      · exact .inl hservice
      · cases hmem
    · exact honly hmem
  · intro h
    refine ⟨_, by rw [hcalled, List.append_assoc], ?_⟩
    rw [List.mem_append]
    rcases h with hservice | hadds
    · exact .inl (by simp [hservice])
    · exact .inr (hall hlisted hadds)

/-- A callback registered under one of the names of a service that is added is called exactly
where that is the name without the CPU, or another service has the whole name behind its CPU. -/
theorem callbacks_are_called_under_the_plain_name (hk : isValidServiceName k = true)
    (hbefore : after step before (start C dead) = some s₁)
    (hlater : after step (.registerForNotifications k (some cb) :: later) s₁ = some s₂)
    (hdied : ∀ who, .binderDied who ∉ before ++ later)
    (hkeep : .unregisterForNotifications k (some cb) ∉ later) (hc : '/' ∉ c)
    (hadd : .addService (c.qualify n) b ∈ before ++ later) (hform : k = n ∨ k = c.qualify n) :
    Told k cb s₁ s₂ ↔ k = n ∨ (k = c.qualify n ∧ Adds (before ++ later) (c.qualify n)) := by
  rw [told_iff_adds hk hbefore hlater hdied hkeep]
  have hplain : Adds (before ++ later) n := ⟨_, b, hadd, Name.after_qualify hc⟩
  rcases hform with rfl | rfl
  · simp [hplain]
  · constructor
    · exact fun hadds => .inr ⟨rfl, hadds⟩
    · rintro (heq | ⟨-, hadds⟩)
      · rwa [heq]
      · exact hadds

/-- A waiter for the plain name is called when the service comes. -/
theorem a_waiter_for_foo_is_called : ∃ s₂, after step
    [.registerForNotifications "foo".toList (some 1), .addService "ap/foo".toList 7]
      (start Nat fun _ : Nat => false) = some s₂ ∧
    Told "foo".toList 1 (start Nat fun _ : Nat => false) s₂ := by
  have hrun : (after step
      [.registerForNotifications "foo".toList (some 1), .addService "ap/foo".toList 7]
      (start Nat fun _ : Nat => false)).isSome = true := rfl
  obtain ⟨s₂, hs₂⟩ := Option.isSome_iff_exists.mp hrun
  have hbefore : after step [] (start Nat fun _ : Nat => false) = some _ := rfl
  exact ⟨s₂, hs₂, (callbacks_are_called_under_the_plain_name (by decide) hbefore hs₂
    (by simp) (by simp) (c := "ap".toList) (n := "foo".toList) (b := 7) (by decide)
    (by simp [Name.qualify]) (.inl rfl)).mpr (.inl rfl)⟩

/-- A waiter for the whole name is not, though the service is there. -/
theorem a_waiter_for_the_whole_name_is_not_called :
    (after step [.registerForNotifications "ap/foo".toList (some 1),
        .addService "ap/foo".toList 7] (start Nat fun _ : Nat => false)).map
      (fun s => (s.called, s.getService "foo".toList)) = some ([], some 7) := by
  decide +kernel

/-! ## Dead binders -/

/-- How many services have the binder. -/
def entries (b : B) (s : CpcServiceManager B C) : Nat :=
  s.mNameToService.toList.countP (·.2.binder = b)

/-- A binder that lives has a link for each of its services and no call to come. For one that
died, a call of `binderDied` is to come while a service has it. -/
structure Linked (s : CpcServiceManager B C) : Prop where
  alive : ∀ b, s.deaths.dead b = false → s.deaths.links b = s.entries b
  quiet : ∀ b, s.deaths.dead b = false → s.deaths.pending b = 0
  died : ∀ b, s.deaths.dead b = true → 0 < s.entries b → 0 < s.deaths.pending b

/-- A binder that is added under a valid name lives, or a call of its `binderDied` is still to
come. -/
def Watched (e : Event B C) (s : CpcServiceManager B C) : Prop :=
  match e with
  | .addService name binder => isValidServiceName (name.after name.find) = true →
    s.deaths.dead binder = false ∨ 0 < s.deaths.pending binder
  | _ => True

instance (e : Event B C) (s : CpcServiceManager B C) : Decidable (Watched e s) := by
  unfold Watched
  cases e <;> infer_instance

/-- One entry of a map and the others. -/
theorem toList_perm_of_get {V : Type} {map : TreeMap Name V} {v : V} (h : map[k]? = some v) :
    map.toList.Perm ((k, v) :: map.toList.filter fun x => ¬(k == x.1) = true) := by
  have hsame : (map.insert k v).Equiv map := by
    apply TreeMap.Equiv.of_forall_constGet?_eq
    intro j
    rw [TreeMap.getElem?_insert]
    split_ifs with heq
    · rw [← h, Std.compare_eq_iff_eq.mp heq]
    · rfl
  exact (TreeMap.equiv_iff_toList_perm.mp hsame).symm.trans TreeMap.toList_insert_perm

theorem countP_toList_of_get {V : Type} {map : TreeMap Name V} {v : V} {p : Name × V → Bool}
    (h : map[k]? = some v) : map.toList.countP p =
      (if p (k, v) then 1 else 0) +
        (map.toList.filter fun x => ¬(k == x.1) = true).countP p := by
  rw [(toList_perm_of_get h).countP_eq, List.countP_cons, Nat.add_comm]

theorem countP_toList_of_none {V : Type} {map : TreeMap Name V} {p : Name × V → Bool}
    (h : map[k]? = none) : map.toList.countP p =
      (map.toList.filter fun x => ¬(k == x.1) = true).countP p := by
  congr 1
  symm
  rw [List.filter_eq_self]
  intro x hx
  have hget := TreeMap.mem_toList_iff_getElem?_eq_some.mp hx
  have hne : ¬k = x.1 := fun heq => by simp [heq, hget] at h
  simpa using hne

/-! ## Links and entries -/

section Links

variable {d : Deaths B} {binder : B}

@[simp] theorem linkToDeath_dead : (d.linkToDeath binder).2.dead = d.dead := by
  unfold Deaths.linkToDeath
  split_ifs <;> rfl

@[simp] theorem linkToDeath_pending : (d.linkToDeath binder).2.pending = d.pending := by
  unfold Deaths.linkToDeath
  split_ifs <;> rfl

theorem linkToDeath_links (h : d.dead b = false) :
    (d.linkToDeath binder).2.links b = d.links b + if binder = b then 1 else 0 := by
  unfold Deaths.linkToDeath
  split_ifs with hdead hsame hsame
  · simp [← hsame, hdead] at h
  · rfl
  · simp [hsame]
  · simp [Ne.symm hsame]

@[simp] theorem unlinkToDeath_dead : (d.unlinkToDeath binder).dead = d.dead := by
  unfold Deaths.unlinkToDeath
  split_ifs <;> rfl

@[simp] theorem unlinkToDeath_pending : (d.unlinkToDeath binder).pending = d.pending := by
  unfold Deaths.unlinkToDeath
  split_ifs <;> rfl

theorem unlinkToDeath_links (h : d.dead b = false) :
    (d.unlinkToDeath binder).links b = d.links b - if binder = b then 1 else 0 := by
  unfold Deaths.unlinkToDeath
  split_ifs with hdead hsame hsame
  · simp [← hsame, hdead] at h
  · rfl
  · simp [hsame]
  · simp [Ne.symm hsame]

@[simp] theorem relinked_dead : (s.relinked k binder).dead = s.deaths.dead := by
  unfold relinked
  dsimp only
  split <;> simp

@[simp] theorem relinked_pending : (s.relinked k binder).pending = s.deaths.pending := by
  unfold relinked
  dsimp only
  split <;> simp

end Links

/-- The services of a binder under other names. -/
def others (k : Name) (b : B) (s : CpcServiceManager B C) : Nat :=
  (s.mNameToService.toList.filter fun x => ¬(k == x.1) = true).countP (·.2.binder = b)

theorem entries_of_get {service : Service B} (h : s.mNameToService[k]? = some service) :
    s.entries b = (if service.binder = b then 1 else 0) + others k b s := by
  unfold entries others
  rw [countP_toList_of_get h]
  simp

theorem entries_of_none (h : s.mNameToService[k]? = none) : s.entries b = others k b s := by
  unfold entries others
  rw [countP_toList_of_none h]

/-- The entries after a service was put under a name. -/
theorem countP_insert {service : Service B} :
    (s.mNameToService.insert k service).toList.countP (·.2.binder = b) =
      (if service.binder = b then 1 else 0) + others k b s := by
  rw [TreeMap.toList_insert_perm.countP_eq, List.countP_cons, Nat.add_comm]
  simp [others]

/-- The links follow the entries: one more for the new binder, one less for the one replaced. -/
theorem relinked_links {b' : B} (halive : s.deaths.dead b = false)
    (h : s.deaths.links b = s.entries b) :
    (s.relinked k b').links b = (if b' = b then 1 else 0) + others k b s := by
  unfold relinked
  dsimp only
  cases hget : s.mNameToService[k]? with
  | none =>
    dsimp only
    rw [linkToDeath_links halive, h, entries_of_none hget, Nat.add_comm]
  | some it =>
    dsimp only
    rw [unlinkToDeath_links (by simpa using halive), linkToDeath_links halive, h,
      entries_of_get hget]
    omega

/-- A binder that lives has a link for each of its services, and no call to come. -/
structure Balanced (s : CpcServiceManager B C) : Prop where
  alive : ∀ b, s.deaths.dead b = false → s.deaths.links b = s.entries b
  quiet : ∀ b, s.deaths.dead b = false → s.deaths.pending b = 0

theorem Linked.balanced (h : Linked s) : Balanced s := ⟨h.alive, h.quiet⟩

theorem Balanced.addService {name : Name} (h : Balanced s) : Balanced (s.addService name b).2 := by
  cases hvalid : isValidServiceName (name.after name.find) with
  | false =>
    rw [addService_of_invalid hvalid]
    exact h
  | true =>
    rw [addService_of_valid hvalid]
    refine ⟨fun b' halive => ?_, fun b' halive => ?_⟩
    · simp only [relinked_dead] at halive
      unfold entries
      dsimp only
      rw [countP_insert, relinked_links halive (h.alive b' halive)]
    · simp only [relinked_dead, relinked_pending] at halive ⊢
      exact h.quiet b' halive

theorem Linked.addService {name : Name} (h : Linked s)
    (hwatched : Watched (.addService name b) s) : Linked (s.addService name b).2 := by
  cases hvalid : isValidServiceName (name.after name.find) with
  | false =>
    rw [addService_of_invalid hvalid]
    exact h
  | true =>
    have hbalanced : Balanced (s.addService name b).2 := h.balanced.addService
    obtain ⟨halive, hquiet⟩ := hbalanced
    refine ⟨halive, hquiet, fun b' hdead hpos => ?_⟩
    rw [addService_of_valid hvalid] at hdead hpos ⊢
    simp only [relinked_dead, relinked_pending] at hdead ⊢
    unfold entries at hpos
    dsimp only at hpos
    rw [countP_insert] at hpos
    dsimp only at hpos
    by_cases hsame : b = b'
    · have hcalls := hwatched hvalid
      rw [hsame] at hcalls
      simpa [hdead] using hcalls
    · apply h.died b' hdead
      rw [if_neg hsame] at hpos
      cases hget : s.mNameToService[name.after name.find]? with
      | none =>
        rw [entries_of_none hget]
        omega
      | some it =>
        rw [entries_of_get hget]
        omega

theorem registerForNotifications_deaths {name : Name} {callback : Option C} :
    (s.registerForNotifications name callback).2.deaths = s.deaths := by
  unfold registerForNotifications
  cases callback with
  | none => split <;> rfl
  | some callback =>
    dsimp only
    split_ifs <;> rfl

theorem unregisterForNotifications_deaths {name : Name} {callback : Option C} :
    (s.unregisterForNotifications name callback).2.deaths = s.deaths := by
  unfold unregisterForNotifications
  split
  · split_ifs <;> rfl
  · rfl

theorem entries_same (hservices : s'.mNameToService = s.mNameToService) (b : B) :
    s'.entries b = s.entries b := by rw [entries, entries, hservices]

theorem Balanced.same (h : Balanced s) (hservices : s'.mNameToService = s.mNameToService)
    (hdeaths : s'.deaths = s.deaths) : Balanced s' :=
  ⟨fun b => by rw [hdeaths, entries_same hservices]; exact h.alive b,
    fun b => by rw [hdeaths]; exact h.quiet b⟩

theorem Linked.same (h : Linked s) (hservices : s'.mNameToService = s.mNameToService)
    (hdeaths : s'.deaths = s.deaths) : Linked s' := by
  obtain ⟨halive, hquiet⟩ := h.balanced.same hservices hdeaths
  exact ⟨halive, hquiet, fun b => by rw [hdeaths, entries_same hservices]; exact h.died b⟩

/-- The binders that live on have their links and no call to come. -/
theorem Balanced.die (h : Balanced s) : Balanced { s with deaths := s.deaths.die b } where
  alive := by
    intro b' hb'
    by_cases hsame : b' = b
    · simp [Deaths.die, hsame] at hb'
    · simp only [Deaths.die, Function.update_of_ne hsame] at hb' ⊢
      exact h.alive b' hb'
  quiet := by
    intro b' hb'
    by_cases hsame : b' = b
    · simp [Deaths.die, hsame] at hb'
    · simp only [Deaths.die, Function.update_of_ne hsame] at hb' ⊢
      exact h.quiet b' hb'

/-- A death turns the links into calls to come. -/
theorem Linked.die (h : Linked s) (halive : s.deaths.dead b = false) :
    Linked { s with deaths := s.deaths.die b } where
  alive := h.balanced.die.alive
  quiet := h.balanced.die.quiet
  died := by
    intro b' hb' hpos
    by_cases hsame : b' = b
    · rw [hsame] at hpos ⊢
      have hlinks := h.alive b halive
      have hentries : 0 < s.entries b := hpos
      simp only [Deaths.die, Function.update_self]
      omega
    · simp only [Deaths.die, Function.update_of_ne hsame] at hb' ⊢
      exact h.died b' hb' hpos

/-- `binderDied` leaves no entry of its binder. -/
theorem entries_binderDied {who : B} :
    (binderDied who s).entries b = if b = who then 0 else s.entries b := by
  unfold entries binderDied
  rw [TreeMap.toList_filter, List.countP_filter]
  split_ifs with hsame
  · rw [List.countP_eq_zero]
    intro x _
    simpa [hsame] using Eq.symm
  · apply List.countP_congr
    intro x _
    simp
    exact fun heq hwho => hsame (heq ▸ hwho.symm)

/-- Only what died is spoken of. -/
theorem Balanced.binderDied {who : B} (h : Balanced s) (hpending : s.deaths.pending who ≠ 0) :
    Balanced (binderDied who { s with deaths := s.deaths.delivered who }) := by
  have hdead : s.deaths.dead who = true := by
    by_contra halive
    exact hpending (h.quiet who (by simpa using halive))
  refine ⟨fun b' hb' => ?_, fun b' hb' => ?_⟩
  · have hne : b' ≠ who := fun heq => by
      rw [heq] at hb'
      have hlive : s.deaths.dead who = false := hb'
      simp [hdead] at hlive
    rw [entries_binderDied, if_neg hne]
    exact h.alive b' hb'
  · have hne : b' ≠ who := fun heq => by
      rw [heq] at hb'
      have hlive : s.deaths.dead who = false := hb'
      simp [hdead] at hlive
    have hquiet := h.quiet b' hb'
    simpa [CpcServiceManager.binderDied, Deaths.delivered, Function.update_of_ne hne] using hquiet

theorem Linked.binderDied {who : B} (h : Linked s) (hpending : s.deaths.pending who ≠ 0) :
    Linked (binderDied who { s with deaths := s.deaths.delivered who }) := by
  obtain ⟨halive, hquiet⟩ := h.balanced.binderDied hpending
  refine ⟨halive, hquiet, fun b' hb' hpos => ?_⟩
  rw [entries_binderDied] at hpos
  split_ifs at hpos with hne
  · exact absurd hpos (lt_irrefl 0)
  · have hdied := h.died b' hb' hpos
    simpa [CpcServiceManager.binderDied, Deaths.delivered, Function.update_of_ne hne] using hdied

theorem Linked.step {e : Event B C} (hstep : step e s = some s') (hwatched : Watched e s)
    (h : Linked s) : Linked s' := by
  cases e with
  | addService name binder =>
    cases hstep
    exact h.addService hwatched
  | registerForNotifications name callback =>
    cases hstep
    exact h.same registerForNotifications_services registerForNotifications_deaths
  | unregisterForNotifications name callback =>
    cases hstep
    exact h.same unregisterForNotifications_services unregisterForNotifications_deaths
  | die binder =>
    simp only [CpcServiceManager.step] at hstep
    split_ifs at hstep with hdead
    cases hstep
    exact h.die (by simpa using hdead)
  | binderDied who =>
    simp only [CpcServiceManager.step] at hstep
    split_ifs at hstep with hpending
    cases hstep
    exact h.binderDied hpending

theorem Linked.start : Linked (start C dead) where
  alive := fun _ _ => rfl
  quiet := fun _ _ => rfl
  died := fun _ _ hpos => absurd hpos (lt_irrefl 0)

/-- In every order of requests, deaths and calls of `binderDied`: if no binder is added under a
valid name that died and has no call to come, then no service has a dead binder once all calls were
made. -/
theorem no_service_of_a_dead_binder
    (hwatched : Meets step Watched events (start C dead))
    (h : after step events (start C dead) = some s) (hdone : ∀ b, s.deaths.pending b = 0) :
    ∀ (name : Name) (service : Service B), s.mNameToService[name]? = some service →
      s.deaths.dead service.binder = false := by
  intro name service hget
  have hlinked := after_inv_of_meets Linked (fun _ _ _ => Linked.step) hwatched h .start
  cases hdead : s.deaths.dead service.binder with
  | false => rfl
  | true =>
    have hpos : 0 < s.entries service.binder := by
      rw [entries_of_get hget, if_pos rfl]
      omega
    have hpending := hlinked.died service.binder hdead hpos
    rw [hdone] at hpending
    exact absurd hpending (lt_irrefl 0)

theorem Balanced.step {e : Event B C} (hstep : step e s = some s') (h : Balanced s) :
    Balanced s' := by
  cases e with
  | addService name binder =>
    cases hstep
    exact h.addService
  | registerForNotifications name callback =>
    cases hstep
    exact h.same registerForNotifications_services registerForNotifications_deaths
  | unregisterForNotifications name callback =>
    cases hstep
    exact h.same unregisterForNotifications_services unregisterForNotifications_deaths
  | die binder =>
    simp only [CpcServiceManager.step] at hstep
    split_ifs at hstep
    cases hstep
    exact h.die
  | binderDied who =>
    simp only [CpcServiceManager.step] at hstep
    split_ifs at hstep with hpending
    cases hstep
    exact h.binderDied hpending

/-- A listed name is cut where the CPU ends and the name begins. -/
theorem CpuNames.listed (h : CpuNames s) :
    (s.listServices.map fun i => (i.before i.find, i.after i.find)) =
      s.mNameToService.toList.map fun x => (x.2.cpuname, x.1) := by
  unfold listServices
  rw [List.map_map]
  apply List.map_congr_left
  rintro ⟨servname, service⟩ hx
  have hplain := h servname service (TreeMap.mem_toList_iff_getElem?_eq_some.mp hx)
  simp [hplain]

/-- In every order of requests, deaths and calls of `binderDied`, a binder that lives has as many
links as names lead to it, and every listed name is cut into the CPU and the name that are kept. -/
theorem links_follow_the_names (h : after step events (start C dead) = some s) :
    (∀ b, s.deaths.dead b = false → s.deaths.links b = s.entries b) ∧
      (s.listServices.map fun i => (i.before i.find, i.after i.find)) =
        s.mNameToService.toList.map fun x => (x.2.cpuname, x.1) :=
  ⟨(after_inv Balanced (fun _ _ _ => Balanced.step) h Linked.start.balanced).alive,
    (CpuNames.after h).listed⟩

/-- A binder gets a second name and loses the first, and another one dies. -/
def renamed : List (Event (Fin 9) Nat) :=
  [.addService "ap/foo".toList 7, .addService "cp/bar".toList 7, .addService "ap/foo".toList 8,
    .addService "bar".toList 7, .die 8, .binderDied 8]

theorem links_follow_the_names_of_one_binder :
    ∃ s, after step renamed (start Nat fun _ => false) = some s ∧
      (∀ b, s.deaths.dead b = false → s.deaths.links b = s.entries b) ∧
      (s.listServices.map fun i => (i.before i.find, i.after i.find)) =
        s.mNameToService.toList.map fun x => (x.2.cpuname, x.1) := by
  have hruns : (after step renamed (start Nat fun _ => false)).isSome = true := by decide +kernel
  obtain ⟨s, hs⟩ := Option.isSome_iff_exists.mp hruns
  exact ⟨s, hs, links_follow_the_names hs⟩

/-- A service is added under two names and dies, and one name goes to another binder. -/
def replaced : List (Event (Fin 9) Nat) :=
  [.addService "ap/foo".toList 7, .addService "ap/bar".toList 7, .die 7,
    .addService "ap/foo".toList 8, .binderDied 7, .binderDied 7]

theorem only_the_living_is_left : ∃ s, after step replaced (start Nat fun _ => false) = some s ∧
    s.mNameToService["foo".toList]? = some { binder := 8, cpuname := "ap".toList } ∧
    s.deaths.dead 8 = false := by
  have hrun : (after step replaced (start Nat fun _ => false)).map
      (fun s => (s.mNameToService["foo".toList]?, decide (∀ b, s.deaths.pending b = 0))) =
        some (some { binder := 8, cpuname := "ap".toList }, true) := by
    decide +kernel
  rw [Option.map_eq_some_iff] at hrun
  obtain ⟨s, hs, hfinal⟩ := hrun
  simp only [Prod.mk.injEq, decide_eq_true_eq] at hfinal
  exact ⟨s, hs, hfinal.1,
    no_service_of_a_dead_binder (by decide +kernel) hs hfinal.2 _ _ hfinal.1⟩

/-- A binder that is dead already is added, and nobody will say so. -/
theorem a_dead_binder_stays : (after step [.die 7, .addService "ap/foo".toList 7]
      (start Nat fun _ : Fin 9 => false)).map
    (fun s => (decide (∀ b, s.deaths.pending b = 0), s.getService "foo".toList,
      s.deaths.dead 7)) = some (true, some 7, true) := by
  decide +kernel

end CpcServiceManager

end system_binder
