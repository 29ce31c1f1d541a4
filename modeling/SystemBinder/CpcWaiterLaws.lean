-- What becomes of the calls of waitForService, in every order of their steps, of the requests of
-- others and of the calls of onRegistration: the callback of a call stands where its stage says,
-- and is called where its service is known.
import SystemBinder.CpcWaiters

open prog Std

set_option linter.unusedSectionVars false

namespace system_binder

namespace CpcServiceManager

variable {B C : Type} [DecidableEq B] [DecidableEq C] {s s' : CpcServiceManager B C} {c : C}
  {k : Name}

/-! ## Requests of others -/

/-- The request names another callback, or none. -/
def Event.Spares (c : C) : Event B C → Prop
  | .registerForNotifications _ callback | .unregisterForNotifications _ callback =>
    callback ≠ some c
  | _ => True

/-- How often a callback is registered under a name. -/
def registrations (c : C) (k : Name) (s : CpcServiceManager B C) : Nat := (listeners k s).count c

theorem registrations_pos : 0 < registrations c k s ↔ c ∈ listeners k s := List.count_pos_iff

theorem listeners_register {name : Name} {cb : C} (h : isValidServiceName name = true) :
    listeners k (s.registerForNotifications name (some cb)).2 =
      if name = k then listeners k s ++ [cb] else listeners k s := by
  rw [registerForNotifications_of_valid h]
  unfold listeners
  simp only [TreeMap.getD_insert, Std.compare_eq_iff_eq]
  split_ifs with heq
  · rw [heq]
  · rfl

theorem registrations_unregister {name : Name} {cb : C} :
    registrations cb k (s.unregisterForNotifications name (some cb)).2 =
      if name = k then registrations cb k s - 1 else registrations cb k s := by
  unfold registrations
  rw [listeners_unregister]
  split_ifs with heq
  · exact List.count_erase_self
  · rfl

theorem registrations_register {name : Name} {cb : C} (h : isValidServiceName name = true) :
    registrations cb k (s.registerForNotifications name (some cb)).2 =
      if name = k then registrations cb k s + 1 else registrations cb k s := by
  unfold registrations
  rw [listeners_register h]
  split_ifs with heq
  · rw [List.count_append, List.count_singleton_self]
  · rfl

theorem registerForNotifications_exception {name : Name} {cb : C}
    (h : isValidServiceName name = true) :
    (s.registerForNotifications name (some cb)).1 = .EX_NONE := by
  unfold registerForNotifications
  rw [if_neg (by simp [h])]
  dsimp only
  split_ifs <;> rfl

/-- What a request of others does to a callback: it stands where it stood, and is called under the
names of the services that are new. -/
structure Elsewhere (c : C) (s s' : CpcServiceManager B C) : Prop where
  calls : ∃ calls, s'.called = s.called ++ calls ∧
    (∀ k, (k, c) ∈ calls → k ∈ s'.mNameToService ∧ c ∈ listeners k s) ∧
    ∀ k, k ∈ s'.mNameToService → k ∈ s.mNameToService ∨ (c ∈ listeners k s → (k, c) ∈ calls)
  count : ∀ k, registrations c k s' = registrations c k s

theorem Elsewhere.same (hcalled : s'.called = s.called)
    (hservices : ∀ k, k ∈ s'.mNameToService → k ∈ s.mNameToService)
    (hcount : ∀ k, registrations c k s' = registrations c k s) : Elsewhere c s s' where
  calls := by
    refine ⟨[], by rw [hcalled, List.append_nil], fun k hmem => ?_, fun k hk => ?_⟩
    · cases hmem
    · exact .inl (hservices k hk)
  count := hcount

theorem Elsewhere.refl (c : C) (s : CpcServiceManager B C) : Elsewhere c s s :=
  .same rfl (fun _ h => h) fun _ => rfl

theorem Elsewhere.addService {name : Name} {b : B} : Elsewhere c s (s.addService name b).2 := by
  cases hvalid : isValidServiceName (name.after name.find) with
  | false =>
    rw [addService_of_invalid hvalid]
    exact .refl c s
  | true =>
    rw [addService_of_valid hvalid]
    refine ⟨⟨_, rfl, fun k hmem => ?_, fun k hk => ?_⟩, fun k => rfl⟩
    · simp only [List.mem_map, Prod.mk.injEq, exists_eq_right_right] at hmem
      obtain ⟨hmem, rfl⟩ := hmem
      exact ⟨by simp, hmem⟩
    · simp only [TreeMap.mem_insert, Std.compare_eq_iff_eq] at hk
      rcases hk with rfl | hk
      · exact .inr fun hc => List.mem_map_of_mem hc
      · exact .inl hk

theorem Elsewhere.register {name : Name} {callback : Option C} (hne : callback ≠ some c) :
    Elsewhere c s (s.registerForNotifications name callback).2 := by
  cases callback with
  | none =>
    rw [registerForNotifications_of_invalid (.inr rfl)]
    exact .refl c s
  | some cb =>
    have hcb : cb ≠ c := fun heq => hne (congrArg some heq)
    cases hvalid : isValidServiceName name with
    | false =>
      rw [registerForNotifications_of_invalid (.inl hvalid)]
      exact .refl c s
    | true =>
      have hlisteners : ∀ k, listeners k (s.registerForNotifications name (some cb)).2 =
          if name = k then listeners k s ++ [cb] else listeners k s :=
        fun k => listeners_register hvalid
      rw [registerForNotifications_of_valid hvalid] at hlisteners ⊢
      refine ⟨⟨_, rfl, fun k hmem => ?_, fun k hk => .inl hk⟩, fun k => ?_⟩
      · split_ifs at hmem with hknown
        · simp only [List.mem_singleton, Prod.mk.injEq] at hmem
          exact absurd hmem.2.symm hcb
        · cases hmem
      · unfold registrations
        rw [hlisteners k]
        split_ifs with heq
        · rw [List.count_append, List.count_singleton, if_neg (by simpa using hcb)]
          rfl
        · rfl

theorem Elsewhere.unregister {name : Name} {callback : Option C} (hne : callback ≠ some c) :
    Elsewhere c s (s.unregisterForNotifications name callback).2 := by
  refine .same ?_ (fun k hk => ?_) fun k => ?_
  · unfold unregisterForNotifications
    split
    · split_ifs <;> rfl
    · rfl
  · rwa [unregisterForNotifications_services] at hk
  · unfold registrations
    rw [listeners_unregister]
    cases callback with
    | none => simp
    | some cb =>
      have hcb : c ≠ cb := fun heq => hne (congrArg some heq.symm)
      split_ifs with heq
      · exact List.count_erase_of_ne hcb
      · rfl

theorem Elsewhere.step {e : Event B C} (hspares : e.Spares c) (hstep : step e s = some s') :
    Elsewhere c s s' := by
  cases e with
  | addService name b =>
    cases hstep
    exact .addService
  | registerForNotifications name callback =>
    cases hstep
    exact .register hspares
  | unregisterForNotifications name callback =>
    cases hstep
    exact .unregister hspares
  | die binder =>
    simp only [CpcServiceManager.step] at hstep
    split_ifs at hstep
    cases hstep
    exact .same rfl (fun _ h => h) fun _ => rfl
  | binderDied who =>
    simp only [CpcServiceManager.step] at hstep
    split_ifs at hstep
    cases hstep
    refine .same rfl (fun k hk => ?_) fun _ => rfl
    exact (TreeMap.mem_of_mem_filter hk)

/-- A callback is called under the names of services that are known then. -/
theorem step_told {e : Event B C} (hstep : step e s = some s') (h : (k, c) ∈ s'.called) :
    (k, c) ∈ s.called ∨ k ∈ s'.mNameToService := by
  cases e with
  | addService name b =>
    cases hstep
    cases hvalid : isValidServiceName (name.after name.find) with
    | false =>
      rw [addService_of_invalid hvalid] at h
      exact .inl h
    | true =>
      rw [addService_of_valid hvalid] at h ⊢
      refine (List.mem_append.mp h).imp_right fun hmem => ?_
      simp only [List.mem_map, Prod.mk.injEq, exists_eq_right_right] at hmem
      simp [hmem.2]
  | registerForNotifications name callback =>
    cases hstep
    by_cases hbad : isValidServiceName name = false ∨ callback = none
    · rw [registerForNotifications_of_invalid hbad] at h
      exact .inl h
    · obtain ⟨hvalid, hsome⟩ := not_or.mp hbad
      obtain ⟨cb, rfl⟩ := Option.ne_none_iff_exists'.mp hsome
      rw [registerForNotifications_of_valid (by simpa using hvalid)] at h ⊢
      refine (List.mem_append.mp h).imp_right fun hmem => ?_
      split_ifs at hmem with hknown
      · simp only [List.mem_singleton, Prod.mk.injEq] at hmem
        rw [hmem.1]
        exact hknown
      · cases hmem
  | unregisterForNotifications name callback =>
    cases hstep
    refine .inl ?_
    unfold unregisterForNotifications at h
    split at h
    · split_ifs at h
      · exact h
      · exact h
    · exact h
  | die binder =>
    simp only [CpcServiceManager.step] at hstep
    split_ifs at hstep
    cases hstep
    exact .inl h
  | binderDied who =>
    simp only [CpcServiceManager.step] at hstep
    split_ifs at hstep
    cases hstep
    exact .inl h

/-- A service that is new was added under its name. -/
theorem step_known {e : Event B C} (hstep : step e s = some s') (h : k ∈ s'.mNameToService) :
    k ∈ s.mNameToService ∨ ∃ name b, e = .addService name b ∧ name.after name.find = k := by
  cases e with
  | addService name b =>
    cases hstep
    cases hvalid : isValidServiceName (name.after name.find) with
    | false =>
      rw [addService_of_invalid hvalid] at h
      exact .inl h
    | true =>
      rw [addService_of_valid hvalid] at h
      simp only [TreeMap.mem_insert, Std.compare_eq_iff_eq] at h
      exact h.symm.imp_right fun heq => ⟨name, b, rfl, heq⟩
  | registerForNotifications name callback =>
    cases hstep
    rw [registerForNotifications_services] at h
    exact .inl h
  | unregisterForNotifications name callback =>
    cases hstep
    rw [unregisterForNotifications_services] at h
    exact .inl h
  | die binder =>
    simp only [CpcServiceManager.step] at hstep
    split_ifs at hstep
    cases hstep
    exact .inl h
  | binderDied who =>
    simp only [CpcServiceManager.step] at hstep
    split_ifs at hstep
    cases hstep
    exact .inl (TreeMap.mem_of_mem_filter h)

end CpcServiceManager

namespace WaitStage

variable {B : Type}

/-- How often the service manager holds the callback of a call at this stage. -/
def remote : WaitStage B → Nat
  | .registered | .waits => 1
  | .drops waiters => waiters.length
  | .done _ => 0

/-- How often the table of the shim holds it. -/
def listed : WaitStage B → Nat
  | .waits => 1
  | _ => 0

/-- The call is not told yet that its service is there. -/
def isOpen : WaitStage B → Bool
  | .registered | .waits => true
  | _ => false

end WaitStage

namespace Waiting

open CpcServiceManager (listeners registrations registrations_pos Elsewhere)

variable {B C : Type} [DecidableEq B] [DecidableEq C] {s s' : Waiting B C} {t u : Nat}
  {call : WaitCall B} {k : Name} {cpuname : Nat → Name}

/-! ## The invariant -/

def held (k : Name) (t : Nat) (s : Waiting B C) : Nat :=
  (s.calls t).elim 0 fun call => if call.name = k then call.stage.remote else 0

def kept (home : Nat) (k : Name) (t : Nat) (s : Waiting B C) : Nat :=
  (s.calls t).elim 0 fun call => if call.home = home ∧ call.name = k then call.stage.listed else 0

/-- What the table of a shim has of a callback under a name. -/
def entries (home : Nat) (k : Name) (t : Nat) (s : Waiting B C) : List (Nat × Nat) :=
  ((s.mNameToCallback home).getD k []).filter fun entry => entry.1 = t

/-- A call of `onRegistration` for the name is under way to the waiter. -/
def UnderWay (k : Name) (t : Nat) (s : Waiting B C) : Prop :=
  ∃ i, i ∉ s.delivered ∧ s.manager.called[i]? = some (k, .inl t)

/-- The callback of a call stands where its stage says, and is called where its service is known. -/
structure Sound (t : Nat) (s : Waiting B C) : Prop where
  called : ∀ k, (k, .inl t) ∈ s.manager.called → ∃ call, s.calls t = some call ∧ call.name = k
  delivered : ∀ i ∈ s.delivered, i < s.manager.called.length
  held : ∀ k, registrations (.inl t) k s.manager = s.held k t
  kept : ∀ home k, s.entries home k t = List.replicate (s.kept home k t) (t, t)
  drops : ∀ call waiters, s.calls t = some call → call.stage = .drops waiters →
    ∀ w ∈ waiters, w = t
  told : ∀ call, s.calls t = some call → call.stage.isOpen = true →
    call.name ∈ s.manager.mNameToService → call.mReady = true ∨ s.UnderWay call.name t
  heard : ∀ call, s.calls t = some call → call.mReady = true →
    (call.name, .inl t) ∈ s.manager.called

theorem Sound.start {dead : B → Bool} {defaults : Name → Name → Option B} :
    Sound t (start dead defaults : Waiting B C) where
  called _ h := by cases h
  delivered _ h := by cases h
  held k := by simp [Waiting.start, CpcServiceManager.start, registrations, listeners, Waiting.held]
  kept home k := by simp [Waiting.start, entries, Waiting.kept]
  drops _ _ h := by cases h
  told _ h := by cases h
  heard _ h := by cases h

/-! ## Steps of others -/

/-- What a step of others does to a call. -/
structure Apart (t : Nat) (s s' : Waiting B C) : Prop where
  calls : s'.calls t = s.calls t
  manager : Elsewhere (.inl t) s.manager s'.manager
  entries : ∀ home k, s'.entries home k t = s.entries home k t
  delivered : ∀ i ∈ s'.delivered, i ∈ s.delivered ∨
    i < s.manager.called.length ∧ ∀ k, s.manager.called[i]? ≠ some (k, .inl t)

theorem UnderWay.apart (happart : Apart t s s') (h : s.UnderWay k t) : s'.UnderWay k t := by
  obtain ⟨i, hi, hcall⟩ := h
  obtain ⟨calls, hcalled, -⟩ := happart.manager.calls
  refine ⟨i, fun hmem => ?_, ?_⟩
  · rcases happart.delivered i hmem with hmem | ⟨-, hne⟩
    · exact hi hmem
    · exact hne k hcall
  · rw [hcalled, List.getElem?_append_left (List.getElem?_eq_some_iff.mp hcall).1]
    exact hcall

theorem Sound.apart (happart : Apart t s s') (h : Sound t s) : Sound t s' := by
  obtain ⟨calls, hcalled, hcalls, hknown⟩ := happart.manager.calls
  have hheld : ∀ k, s'.held k t = s.held k t := fun k => by
    unfold Waiting.held
    rw [happart.calls]
  have hkept : ∀ home k, s'.kept home k t = s.kept home k t := fun home k => by
    unfold Waiting.kept
    rw [happart.calls]
  have hlisted : ∀ k, .inl t ∈ listeners k s.manager →
      ∃ call, s.calls t = some call ∧ call.name = k := by
    intro k hmem
    have hpos := registrations_pos.mpr hmem
    rw [h.held, Waiting.held] at hpos
    cases hcall : s.calls t with
    | none => simp [hcall] at hpos
    | some call =>
      refine ⟨call, rfl, ?_⟩
      by_contra hne
      simp [hcall, hne] at hpos
  refine ⟨fun k hmem => ?_, fun i hmem => ?_, fun k => ?_, fun home k => ?_, ?_, ?_, ?_⟩
  · rw [happart.calls]
    rw [hcalled, List.mem_append] at hmem
    rcases hmem with hmem | hmem
    · exact h.called k hmem
    · exact hlisted k (hcalls k hmem).2
  · rw [hcalled, List.length_append]
    rcases happart.delivered i hmem with hmem | ⟨hlt, -⟩
    · have hlt := h.delivered i hmem
      omega
    · omega
  · rw [happart.manager.count, hheld]
    exact h.held k
  · rw [happart.entries, hkept]
    exact h.kept home k
  · rw [happart.calls]
    exact h.drops
  · rw [happart.calls]
    intro call hcall hopen hservice
    rcases hknown _ hservice with hservice | hnew
    · exact (h.told call hcall hopen hservice).imp_right (·.apart happart)
    · have hmem : .inl t ∈ listeners call.name s.manager := by
        apply registrations_pos.mp
        rw [h.held, Waiting.held, hcall]
        cases hstage : call.stage with
        | registered => simp [hstage, WaitStage.remote]
        | waits => simp [hstage, WaitStage.remote]
        | drops waiters => simp [hstage, WaitStage.isOpen] at hopen
        | done result => simp [hstage, WaitStage.isOpen] at hopen
      obtain ⟨j, hj⟩ := List.mem_iff_getElem?.mp (hnew hmem)
      refine .inr ⟨s.manager.called.length + j, fun hmem => ?_, ?_⟩
      · rcases happart.delivered _ hmem with hmem | ⟨hlt, -⟩
        · have hlt := h.delivered _ hmem
          omega
        · omega
      · rw [hcalled, List.getElem?_append_right (Nat.le_add_right _ _), Nat.add_sub_cancel_left]
        exact hj
  · rw [happart.calls]
    intro call hcall hready
    rw [hcalled]
    exact List.mem_append_left _ (h.heard call hcall hready)

/-! ## Steps of a call -/

theorem calls_setCall : (s.setCall t call).calls u = if u = t then some call else s.calls u := by
  unfold setCall
  simp only [Function.update_apply]

/-- What a step of the call `t` does to the others. -/
theorem Apart.of_call (hu : u ≠ t) {call' : WaitCall B}
    (hcalls : s'.calls = (s.setCall t call').calls)
    (hmanager : Elsewhere (.inl u) s.manager s'.manager)
    (hentries : ∀ home k, s'.entries home k u = s.entries home k u)
    (hdelivered : s'.delivered = s.delivered) : Apart u s s' where
  calls := by rw [hcalls, calls_setCall, if_neg hu]
  manager := hmanager
  entries := hentries
  delivered i hi := .inl (hdelivered ▸ hi)

/-- A step of a call that asks nothing of the service manager. -/
theorem Sound.advance {call' : WaitCall B} (h : Sound t s) (hcall : s.calls t = some call)
    (hcall' : s'.calls t = some call') (hhome : call'.home = call.home)
    (hname : call'.name = call.name) (hready : call'.mReady = call.mReady)
    (hmanager : s'.manager = s.manager) (hdelivered : s'.delivered = s.delivered)
    (hremote : call'.stage.remote = call.stage.remote)
    (hentries : ∀ home k, s'.entries home k t = List.replicate
      (if call.home = home ∧ call.name = k then call'.stage.listed else 0) (t, t))
    (hdrops : ∀ waiters, call'.stage = .drops waiters → ∀ w ∈ waiters, w = t)
    (hopen : call'.stage.isOpen = true → call.stage.isOpen = true) : Sound t s' := by
  refine ⟨fun k hmem => ?_, fun i hi => ?_, fun k => ?_, fun home k => ?_, ?_, ?_, ?_⟩
  · rw [hmanager] at hmem
    obtain ⟨call₁, hcall₁, hk⟩ := h.called k hmem
    rw [hcall] at hcall₁
    cases hcall₁
    exact ⟨call', hcall', hname.trans hk⟩
  · rw [hmanager]
    rw [hdelivered] at hi
    exact h.delivered i hi
  · rw [hmanager, h.held, Waiting.held, Waiting.held, hcall, hcall', Option.elim_some,
      Option.elim_some, hname, hremote]
  · rw [hentries, Waiting.kept, hcall', Option.elim_some, hhome, hname]
  · rintro _ waiters heq hstage
    rw [hcall'] at heq
    cases heq
    exact hdrops waiters hstage
  · rintro _ heq hisOpen hservice
    rw [hcall'] at heq
    cases heq
    rw [hname, hmanager] at hservice
    rw [hname, hready]
    refine (h.told call hcall (hopen hisOpen) hservice).imp_right fun hway => ?_
    unfold UnderWay
    rw [hmanager, hdelivered]
    exact hway
  · rintro _ heq hisReady
    rw [hcall'] at heq
    cases heq
    rw [hname, hmanager]
    exact h.heard call hcall (hready ▸ hisReady)

theorem entries_pushBack (home : Nat) : (s.pushBack t call).entries home k u =
    s.entries home k u ++
      if call.home = home ∧ call.name = k ∧ t = u then [(t, t)] else [] := by
  unfold entries pushBack
  dsimp only
  by_cases hhome : home = call.home
  · rw [hhome, Function.update_self, TreeMap.getD_insert]
    simp only [Std.compare_eq_iff_eq]
    by_cases hk : call.name = k
    · rw [if_pos hk, hk, List.filter_append]
      by_cases ht : t = u <;> simp [ht]
    · simp [hk]
  · have hne : ¬call.home = home := fun heq => hhome heq.symm
    simp [Function.update_of_ne hhome, hne]

theorem entries_unlist (home : Nat) : (s.unlist t call).entries home k u =
    if call.home = home ∧ call.name = k ∧ t = u then [] else s.entries home k u := by
  unfold unlist
  dsimp only
  split
  · rename_i hget
    split_ifs with h
    · obtain ⟨rfl, rfl, rfl⟩ := h
      unfold entries setCall
      simp [TreeMap.getD_eq_getD_getElem?, hget]
    · rfl
  · rename_i found hget
    unfold entries
    dsimp only
    by_cases hhome : call.home = home
    · subst hhome
      rw [Function.update_self]
      have hfound : (s.mNameToCallback call.home).getD call.name [] = found := by
        simp [TreeMap.getD_eq_getD_getElem?, hget]
      have hrest : (if (found.filter fun entry => entry.1 ≠ t).isEmpty then
            (s.mNameToCallback call.home).erase call.name
          else (s.mNameToCallback call.home).insert call.name
            (found.filter fun entry => entry.1 ≠ t)).getD k [] =
          if call.name = k then found.filter fun entry => entry.1 ≠ t
          else (s.mNameToCallback call.home).getD k [] := by
        split_ifs with hempty hk hk
        · rw [List.isEmpty_iff.mp hempty, hk, TreeMap.getD_erase_self]
        · simp [hk, TreeMap.getD_erase]
        · simp [hk]
        · simp [hk, TreeMap.getD_insert]
      rw [hrest]
      by_cases hk : call.name = k
      · subst hk
        by_cases ht : t = u
        · subst ht
          simp [List.filter_filter]
        · rw [if_pos rfl, if_neg (by simp [ht]), hfound, List.filter_filter]
          apply List.filter_congr
          intro entry _
          have hne : entry.1 = u → ¬entry.1 = t := fun h h' => ht (h'.symm.trans h)
          by_cases hentry : entry.1 = u <;> simp [hentry]
          exact fun h => ht h.symm
      · simp [hk]
    · have hne : home ≠ call.home := fun heq => hhome heq.symm
      rw [Function.update_of_ne hne, if_neg (by simp [hhome])]

theorem calls_unlist : (s.unlist t call).calls = (s.setCall t { call with
    stage := .drops ((s.entries call.home call.name t).map (·.2)) }).calls := by
  unfold unlist entries
  dsimp only
  split
  · rename_i hget
    simp [TreeMap.getD_eq_getD_getElem?, hget]
  · rename_i found hget
    simp [TreeMap.getD_eq_getD_getElem?, hget, setCall]

theorem manager_unlist : (s.unlist t call).manager = s.manager := by
  unfold unlist
  dsimp only
  split <;> rfl

theorem delivered_unlist : (s.unlist t call).delivered = s.delivered := by
  unfold unlist
  dsimp only
  split <;> rfl

theorem Sound.pushBack (h : Sound t s) (hcall : s.calls t = some call)
    (hstage : call.stage = .registered) : Sound t (s.pushBack t call) := by
  have hcall' : (s.pushBack t call).calls t = some { call with stage := .waits } := by
    unfold Waiting.pushBack
    exact calls_setCall.trans (if_pos rfl)
  refine h.advance hcall hcall' rfl rfl rfl rfl rfl ?_ ?_ ?_ ?_
  · rw [hstage]
    rfl
  · intro home k
    rw [entries_pushBack, h.kept, Waiting.kept, hcall, Option.elim_some, hstage]
    by_cases hplace : call.home = home ∧ call.name = k
    · simp [hplace, WaitStage.listed]
    · have hnot : ¬(call.home = home ∧ call.name = k ∧ t = t) :=
        fun hall => hplace ⟨hall.1, hall.2.1⟩
      rw [if_neg hplace, if_neg hplace, if_neg hnot]
      rfl
  · intro waiters heq
    cases heq
  · rw [hstage]
    exact fun _ => rfl

theorem Sound.unlist (h : Sound t s) (hcall : s.calls t = some call)
    (hstage : call.stage = .waits) : Sound t (s.unlist t call) ∧
      (s.unlist t call).calls t = some { call with stage := .drops [t] } := by
  have hentries : s.entries call.home call.name t = [(t, t)] := by
    rw [h.kept, Waiting.kept, hcall, Option.elim_some, if_pos ⟨rfl, rfl⟩, hstage]
    rfl
  have hcall' : (s.unlist t call).calls t = some { call with stage := .drops [t] } := by
    rw [calls_unlist, calls_setCall, if_pos rfl, hentries]
    rfl
  refine ⟨?_, hcall'⟩
  refine h.advance hcall hcall' rfl rfl rfl manager_unlist delivered_unlist ?_ ?_ ?_ ?_
  · rw [hstage]
    rfl
  · intro home k
    rw [entries_unlist, h.kept, Waiting.kept, hcall, Option.elim_some]
    by_cases hplace : call.home = home ∧ call.name = k
    · simp [hplace, WaitStage.listed]
    · have hnot : ¬(call.home = home ∧ call.name = k ∧ t = t) :=
        fun hall => hplace ⟨hall.1, hall.2.1⟩
      rw [if_neg hplace, if_neg hplace, if_neg hnot]
  · rintro _ ⟨⟩ w hw
    exact List.mem_singleton.mp hw
  · intro hopen
    cases hopen

/-- The callback goes from the service manager. -/
theorem Sound.drop {waiters : List Nat} (h : Sound t s) (hcall : s.calls t = some call)
    (hstage : call.stage = .drops (t :: waiters)) : Sound t (s.drop t t waiters call) := by
  have hcall' : (s.drop t t waiters call).calls t = some { call with stage := .drops waiters } :=
    calls_setCall.trans (if_pos rfl)
  have hcalled : (s.drop t t waiters call).manager.called = s.manager.called := by
    show (s.manager.unregisterForNotifications call.name (some (.inl t))).2.called = _
    unfold CpcServiceManager.unregisterForNotifications
    split
    · split_ifs <;> rfl
    · rfl
  refine ⟨fun k hmem => ?_, fun i hi => ?_, fun k => ?_, fun home k => ?_, ?_, ?_, ?_⟩
  · rw [hcalled] at hmem
    obtain ⟨call₁, hcall₁, hk⟩ := h.called k hmem
    rw [hcall] at hcall₁
    cases hcall₁
    exact ⟨_, hcall', hk⟩
  · rw [hcalled]
    exact h.delivered i hi
  · have hbefore := h.held k
    rw [Waiting.held, hcall, Option.elim_some, hstage] at hbefore
    rw [Waiting.held, hcall', Option.elim_some]
    show registrations _ k (s.manager.unregisterForNotifications call.name (some (.inl t))).2 = _
    rw [CpcServiceManager.registrations_unregister]
    by_cases hk : call.name = k
    · rw [if_pos hk] at hbefore
      rw [if_pos hk, if_pos hk, hbefore]
      rfl
    · rw [if_neg hk] at hbefore
      rw [if_neg hk, if_neg hk, hbefore]
  · show s.entries home k t = _
    rw [h.kept, Waiting.kept, Waiting.kept, hcall, hcall', Option.elim_some, Option.elim_some,
      hstage]
    rfl
  · rintro _ _ heq hdrops w hw
    rw [hcall'] at heq
    cases heq
    cases hdrops
    exact h.drops call _ hcall hstage w (List.mem_cons_of_mem _ hw)
  · rintro _ heq hopen
    rw [hcall'] at heq
    cases heq
    cases hopen
  · rintro _ heq hready
    rw [hcall'] at heq
    cases heq
    rw [hcalled]
    exact h.heard call hcall hready

/-- How a call begins. -/
theorem waitForService_cases {home : Nat} (hstep : s.waitForService t home k = some s') :
    s.calls t = none ∧
      ((isValidServiceName k = false ∧ s' = s.setCall t ⟨home, k, false, .done none⟩) ∨
        (isValidServiceName k = true ∧
          s' = (s.setManager (s.manager.registerForNotifications k (some (.inl t))).2).setCall t
            ⟨home, k, false, .registered⟩)) := by
  unfold Waiting.waitForService at hstep
  by_cases hnone : s.calls t = none
  · rw [if_neg (not_not.mpr hnone)] at hstep
    refine ⟨hnone, ?_⟩
    cases hvalid : isValidServiceName k with
    | false =>
      rw [if_pos (by simp [hvalid])] at hstep
      cases hstep
      exact .inl ⟨rfl, rfl⟩
    | true =>
      rw [if_neg (by simp [hvalid])] at hstep
      have hone : (s.manager.registerForNotifications k (some (.inl t))).1 = .EX_NONE :=
        CpcServiceManager.registerForNotifications_exception hvalid
      rcases hregister : s.manager.registerForNotifications k (some (.inl t)) with ⟨exception, m⟩
      rw [hregister] at hstep hone ⊢
      subst hone
      cases hstep
      exact .inr ⟨rfl, rfl⟩
  · rw [if_pos hnone] at hstep
    cases hstep

/-- Nothing is known of a call before it begins. -/
theorem Sound.begin {m : CpcServiceManager B (Nat ⊕ C)} (h : Sound t s) (hnone : s.calls t = none)
    (hready : call.mReady = false) (hlisted : call.stage.listed = 0)
    (hdrops : ∀ waiters, call.stage ≠ .drops waiters)
    (hcalled : ∃ calls, m.called = s.manager.called ++ calls ∧
      (∀ k, (k, .inl t) ∈ calls → call.name = k) ∧
      (call.stage.isOpen = true → call.name ∈ m.mNameToService → (call.name, .inl t) ∈ calls))
    (hheld : ∀ k, registrations (.inl t) k m = if call.name = k then call.stage.remote else 0) :
    Sound t ((s.setManager m).setCall t call) := by
  have hcall' : ((s.setManager m).setCall t call).calls t = some call :=
    calls_setCall.trans (if_pos rfl)
  obtain ⟨calls, hcalled, hnames, hopen⟩ := hcalled
  have hbefore : ∀ k, (k, .inl t) ∉ s.manager.called := by
    intro k hmem
    obtain ⟨call₁, hcall₁, -⟩ := h.called k hmem
    rw [hnone] at hcall₁
    cases hcall₁
  refine ⟨fun k hmem => ?_, fun i hi => ?_, fun k => ?_, fun home k => ?_, ?_, ?_, ?_⟩
  · have hmem' : (k, .inl t) ∈ m.called := hmem
    rw [hcalled, List.mem_append] at hmem'
    exact ⟨call, hcall', hnames k (hmem'.resolve_left (hbefore k))⟩
  · show i < m.called.length
    have hlt := h.delivered i hi
    rw [hcalled, List.length_append]
    omega
  · rw [Waiting.held, hcall', Option.elim_some]
    exact hheld k
  · refine (h.kept home k).trans ?_
    rw [Waiting.kept, Waiting.kept, hnone, hcall', Option.elim_some, Option.elim_none, hlisted]
    split_ifs <;> rfl
  · rintro _ waiters heq hstage
    rw [hcall'] at heq
    cases heq
    exact absurd hstage (hdrops waiters)
  · rintro _ heq hisOpen hservice
    rw [hcall'] at heq
    cases heq
    obtain ⟨j, hj⟩ := List.mem_iff_getElem?.mp (hopen hisOpen hservice)
    refine .inr ⟨s.manager.called.length + j, fun hmem => ?_, ?_⟩
    · have hlt := h.delivered _ hmem
      omega
    · show m.called[_]? = _
      rw [hcalled, List.getElem?_append_right (Nat.le_add_right _ _), Nat.add_sub_cancel_left]
      exact hj
  · rintro _ heq hisReady
    rw [hcall'] at heq
    cases heq
    rw [hready] at hisReady
    cases hisReady

theorem Sound.waitForService {home : Nat} (h : Sound t s)
    (hstep : s.waitForService t home k = some s') : Sound t s' := by
  obtain ⟨hnone, ⟨-, rfl⟩ | ⟨hvalid, rfl⟩⟩ := waitForService_cases hstep
  · refine h.begin (m := s.manager) hnone rfl rfl (fun _ heq => by cases heq) ?_ fun k' => ?_
    · exact ⟨[], (List.append_nil _).symm, ⟨fun _ hmem => (by cases hmem),
        fun hopen => (by cases hopen)⟩⟩
    · rw [h.held, Waiting.held, hnone, Option.elim_none]
      split_ifs <;> rfl
  · refine h.begin hnone rfl rfl (fun _ heq => by cases heq) ?_ fun k' => ?_
    · rw [CpcServiceManager.registerForNotifications_of_valid hvalid]
      refine ⟨_, rfl, fun k' hmem => ?_, fun _ hservice => ?_⟩
      · split_ifs at hmem with hknown
        · simp only [List.mem_singleton, Prod.mk.injEq] at hmem
          exact hmem.1.symm
        · cases hmem
      · rw [if_pos hservice]
        exact List.mem_singleton_self _
    · rw [CpcServiceManager.registrations_register hvalid, h.held, Waiting.held, hnone,
        Option.elim_none]
      rfl

/-- The call has looked the service up. -/
theorem Sound.finish {result : Option (Endpoint B)} (h : Sound t s) (hcall : s.calls t = some call)
    (hstage : call.stage = .drops []) :
    Sound t (s.setCall t { call with stage := .done result }) := by
  have hcall' : (s.setCall t { call with stage := .done result }).calls t =
      some { call with stage := .done result } := calls_setCall.trans (if_pos rfl)
  refine h.advance hcall hcall' rfl rfl rfl rfl rfl ?_ (fun home k => ?_) ?_ ?_
  · rw [hstage]
    rfl
  · refine (h.kept home k).trans ?_
    rw [Waiting.kept, hcall, Option.elim_some, hstage]
    rfl
  · intro waiters heq
    cases heq
  · intro hopen
    cases hopen

theorem Sound.goOn (h : Sound t s) (hstep : s.goOn cpuname t = some s') : Sound t s' := by
  unfold Waiting.goOn at hstep
  cases hcall : s.calls t with
  | none =>
    rw [hcall] at hstep
    cases hstep
  | some call =>
    rw [hcall] at hstep
    dsimp only at hstep
    split at hstep
    · rename_i hstage
      cases hstep
      exact h.pushBack hcall hstage
    · rename_i hstage
      split_ifs at hstep
      cases hstep
      exact (h.unlist hcall hstage).1
    · rename_i w waiters hstage
      cases hstep
      have hw : w = t := h.drops call _ hcall hstage w List.mem_cons_self
      subst hw
      exact h.drop hcall hstage
    · rename_i hstage
      cases hstep
      exact h.finish hcall hstage
    · cases hstep

/-- What comes to a waiter makes it ready. -/
theorem Sound.notified {i : Nat} (h : Sound t s) (hcall : s.calls t = some call)
    (hcalled : s.manager.called[i]? = some (k, .inl t)) :
    Sound t ({ s with delivered := i :: s.delivered }.setCall t { call with mReady := true }) := by
  have hcall' : ({ s with delivered := i :: s.delivered }.setCall t
      { call with mReady := true }).calls t = some { call with mReady := true } :=
    calls_setCall.trans (if_pos rfl)
  have hmem : (k, .inl t) ∈ s.manager.called := List.mem_of_getElem? hcalled
  obtain ⟨call₁, hcall₁, hk⟩ := h.called k hmem
  rw [hcall] at hcall₁
  cases hcall₁
  refine ⟨fun k' hmem' => ?_, fun j hj => ?_, fun k' => ?_, fun home k' => ?_, ?_, ?_, ?_⟩
  · obtain ⟨call₁, hcall₁, hk'⟩ := h.called k' hmem'
    rw [hcall] at hcall₁
    cases hcall₁
    exact ⟨_, hcall', hk'⟩
  · rcases List.mem_cons.mp hj with rfl | hj
    · exact (List.getElem?_eq_some_iff.mp hcalled).1
    · exact h.delivered j hj
  · refine (h.held k').trans ?_
    rw [Waiting.held, Waiting.held, hcall, hcall']
    rfl
  · refine (h.kept home k').trans ?_
    rw [Waiting.kept, Waiting.kept, hcall, hcall']
    rfl
  · rintro _ waiters heq hstage
    rw [hcall'] at heq
    cases heq
    exact h.drops call waiters hcall hstage
  · rintro _ heq - -
    rw [hcall'] at heq
    cases heq
    exact .inl rfl
  · rintro _ heq -
    rw [hcall'] at heq
    cases heq
    rw [← hk] at hmem
    exact hmem

/-! ## Every step -/

theorem Apart.waitForService {home : Nat} (hu : u ≠ t)
    (hstep : s.waitForService t home k = some s') : Apart u s s' := by
  obtain ⟨-, ⟨-, rfl⟩ | ⟨-, rfl⟩⟩ := waitForService_cases hstep
  · exact .of_call hu rfl (.refl _ _) (fun _ _ => rfl) rfl
  · refine .of_call hu rfl (.register ?_) (fun _ _ => rfl) rfl
    intro heq
    cases heq
    exact hu rfl

theorem Apart.goOn (hsound : Sound t s) (hu : u ≠ t) (hstep : s.goOn cpuname t = some s') :
    Apart u s s' := by
  have hne : t ≠ u := Ne.symm hu
  unfold Waiting.goOn at hstep
  cases hcall : s.calls t with
  | none =>
    rw [hcall] at hstep
    cases hstep
  | some call =>
    rw [hcall] at hstep
    dsimp only at hstep
    split at hstep
    · cases hstep
      refine .of_call hu rfl (.refl _ _) (fun home k => ?_) rfl
      rw [entries_pushBack, if_neg (by simp [hne]), List.append_nil]
    · split_ifs at hstep
      cases hstep
      refine .of_call hu calls_unlist ?_ (fun home k => ?_) delivered_unlist
      · rw [manager_unlist]
        exact .refl _ _
      · rw [entries_unlist, if_neg (by simp [hne])]
    · rename_i w waiters hstage
      cases hstep
      have hw : w = t := hsound.drops call _ hcall hstage w List.mem_cons_self
      subst hw
      refine .of_call hu rfl (.unregister ?_) (fun _ _ => rfl) rfl
      intro heq
      cases heq
      exact hu rfl
    · cases hstep
      exact .of_call hu rfl (.refl _ _) (fun _ _ => rfl) rfl
    · cases hstep

theorem Sound.deliver {i : Nat} (h : Sound t s) (hstep : s.deliver i = some s') : Sound t s' := by
  unfold Waiting.deliver at hstep
  split_ifs at hstep
  obtain ⟨⟨k, c⟩, hcalled, rfl⟩ := Option.map_eq_some_iff.mp hstep
  have hlt := (List.getElem?_eq_some_iff.mp hcalled).1
  have hother : c ≠ .inl t → ∀ s₁ : Waiting B C, s₁.calls t = s.calls t → s₁.manager = s.manager →
      s₁.mNameToCallback = s.mNameToCallback → s₁.delivered = i :: s.delivered → Sound t s₁ := by
    intro hne s₁ hcalls hmanager htable hdelivered
    refine h.apart ⟨hcalls, ?_, fun home k => ?_, fun j hj => ?_⟩
    · rw [hmanager]
      exact .refl _ _
    · unfold entries
      rw [htable]
    · rw [hdelivered] at hj
      rcases List.mem_cons.mp hj with rfl | hj
      · refine .inr ⟨hlt, fun k' heq => ?_⟩
        rw [hcalled] at heq
        cases heq
        exact hne rfl
      · exact .inl hj
  unfold Waiting.notified
  cases c with
  | inr c => exact hother (fun heq => by cases heq) _ rfl rfl rfl rfl
  | inl w =>
    dsimp only
    by_cases hw : w = t
    · subst hw
      obtain ⟨call, hcall, -⟩ := h.called k (List.mem_of_getElem? hcalled)
      simp only [hcall]
      exact h.notified hcall hcalled
    · have hne : (Sum.inl w : Nat ⊕ C) ≠ .inl t := fun heq => hw (Sum.inl.inj heq)
      cases hcall : s.calls w with
      | none => exact hother hne _ rfl rfl rfl rfl
      | some call =>
        refine hother hne _ ?_ rfl rfl rfl
        exact calls_setCall.trans (if_neg (Ne.symm hw))

/-- The shim of a CPU asks the service manager to add a service, or nothing. -/
theorem addService_manager {cpu name : Name} {b : B} {cpus : Cpus B (Nat ⊕ C)} :
    (CpcServiceManagerShim.addService cpu name b cpus).2.mTheRealServiceManager =
      if isValidServiceName name = true then
        (cpus.mTheRealServiceManager.addService (cpu.qualify name) b).2
      else cpus.mTheRealServiceManager := by
  unfold CpcServiceManagerShim.addService
  cases isValidServiceName name <;> rfl

theorem Sound.step {e : Event B C} (h : ∀ t, Sound t s) (hstep : step cpuname e s = some s') :
    ∀ t, Sound t s' := by
  intro t
  cases e with
  | waitForService u home name =>
    by_cases hu : t = u
    · subst hu
      exact (h t).waitForService hstep
    · exact (h t).apart (.waitForService hu hstep)
  | goOn u =>
    by_cases hu : t = u
    · subst hu
      exact (h t).goOn hstep
    · exact (h t).apart (.goOn (h u) hu hstep)
  | deliver i => exact (h t).deliver hstep
  | addService cpu name b =>
    cases hstep
    have hmanager : Elsewhere (.inl t) s.manager
        (CpcServiceManagerShim.addService cpu name b s.cpus).2.mTheRealServiceManager := by
      rw [addService_manager]
      split
      · exact .addService
      · exact .refl _ _
    have happart : Apart t s
        { s with cpus := (CpcServiceManagerShim.addService cpu name b s.cpus).2 } :=
      ⟨rfl, hmanager, fun _ _ => rfl, fun i hi => .inl hi⟩
    exact (h t).apart happart
  | other e =>
    obtain ⟨m, hm, rfl⟩ := Option.map_eq_some_iff.mp hstep
    have hspares : (other e).Spares (.inl t) := by
      cases e with
      | registerForNotifications name callback => cases callback <;> exact fun heq => by cases heq
      | unregisterForNotifications name callback =>
        cases callback <;> exact fun heq => by cases heq
      | _ => trivial
    have happart : Apart t s (s.setManager m) :=
      ⟨rfl, .step hspares hm, fun _ _ => rfl, fun i hi => .inl hi⟩
    exact (h t).apart happart

theorem Sound.after {dead : B → Bool} {defaults : Name → Name → Option B}
    {events : List (Event B C)}
    (h : prog.after (Waiting.step cpuname) events (Waiting.start dead defaults) = some s) :
    ∀ t, Sound t s :=
  after_inv (fun s => ∀ t, Sound t s) (fun _ _ _ hstep h => Sound.step h hstep) h
    fun _ => Sound.start

end Waiting

end system_binder
