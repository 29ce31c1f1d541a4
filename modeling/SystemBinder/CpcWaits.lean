-- How a call of waitForService ends. Where its service is known it can always return, it returns
-- only after a service of its name was added, nothing of it is left behind then, and where services
-- last it returns one that was added.
import SystemBinder.CpcWaiterLaws

open prog Std

set_option linter.unusedSectionVars false

namespace system_binder.Waiting

open CpcServiceManager (listeners registrations registrations_pos Elsewhere)
open CpcServiceManagerShim (registered)

variable {B C : Type} [DecidableEq B] [DecidableEq C] {s s' : Waiting B C} {t : Nat}
  {call : WaitCall B} {k : Name} {cpuname : Nat → Name} {dead : B → Bool}
  {defaults : Name → Name → Option B} {events : List (Event B C)}

/-! ## The way to the end -/

theorem goOn_registered (hcall : s.calls t = some call) (hstage : call.stage = .registered) :
    step cpuname (.goOn t) s = some (s.pushBack t call) := by
  simp [step, goOn, hcall, hstage]

theorem goOn_waits (hcall : s.calls t = some call) (hstage : call.stage = .waits)
    (hready : call.mReady = true) : step cpuname (.goOn t) s = some (s.unlist t call) := by
  simp [step, goOn, hcall, hstage, hready]

theorem goOn_drops {w : Nat} {waiters : List Nat} (hcall : s.calls t = some call)
    (hstage : call.stage = .drops (w :: waiters)) :
    step cpuname (.goOn t) s = some (s.drop t w waiters call) := by
  simp [step, goOn, hcall, hstage]

theorem goOn_looksUp (hcall : s.calls t = some call) (hstage : call.stage = .drops []) :
    step cpuname (.goOn t) s = some (s.setCall t { call with
      stage := .done
        (CpcServiceManagerShim.getService (cpuname call.home) call.name s.cpus) }) := by
  simp [step, goOn, hcall, hstage]

/-- A call that is ready returns without anyone else. -/
theorem returns_of_ready (cpuname : Nat → Name) (hsound : Sound t s) (hcall : s.calls t = some call)
    (hstage : call.stage = .waits) (hready : call.mReady = true) :
    ∃ s' result, after (step cpuname) [.goOn t, .goOn t, .goOn t] s = some s' ∧
      s'.calls t = some { call with stage := .done result } := by
  obtain ⟨-, hcall₁⟩ := hsound.unlist hcall hstage
  have hdrop : step cpuname (.goOn t) (s.unlist t call) = _ := goOn_drops hcall₁ rfl
  have hcall₂ : ((s.unlist t call).drop t t [] { call with stage := .drops [t] }).calls t =
      some { call with stage := .drops [] } := calls_setCall.trans (if_pos rfl)
  generalize (s.unlist t call).drop t t [] { call with stage := .drops [t] } = s₂ at hdrop hcall₂
  refine ⟨s₂.setCall t { call with stage := .done (CpcServiceManagerShim.getService
    (cpuname call.home) call.name s₂.cpus) }, _, ?_, calls_setCall.trans (if_pos rfl)⟩
  rw [after_cons, goOn_waits hcall hstage hready, Option.bind_some, after_cons, hdrop,
    Option.bind_some, after_cons, goOn_looksUp hcall₂ rfl, Option.bind_some, after_nil]

/-- A call that is told returns once it hears it. -/
theorem returns_of_told (cpuname : Nat → Name) (hsound : Sound t s) (hcall : s.calls t = some call)
    (hstage : call.stage = .waits) (htold : call.mReady = true ∨ s.UnderWay call.name t) :
    ∃ later s' result, (∀ e ∈ later, e = .goOn t ∨ ∃ i, e = .deliver i) ∧
      after (step cpuname) later s = some s' ∧
      s'.calls t = some { call with mReady := true, stage := .done result } := by
  rcases htold with hready | ⟨i, hi, hcalled⟩
  · obtain ⟨s', result, hafter, hcall'⟩ := returns_of_ready cpuname hsound hcall hstage hready
    refine ⟨[.goOn t, .goOn t, .goOn t], s', result, ?_, hafter, ?_⟩
    · simp
    · rw [hcall', hready]
  · have hdeliver : step cpuname (.deliver i) s =
        some ({ s with delivered := i :: s.delivered }.setCall t { call with mReady := true }) := by
      simp [step, deliver, hi, hcalled, notified, hcall]
    have hcall₁ : ({ s with delivered := i :: s.delivered }.setCall t
        { call with mReady := true }).calls t = some { call with mReady := true } :=
      calls_setCall.trans (if_pos rfl)
    obtain ⟨s', result, hafter, hcall'⟩ :=
      returns_of_ready cpuname (hsound.notified hcall hcalled) hcall₁ hstage rfl
    refine ⟨[.deliver i, .goOn t, .goOn t, .goOn t], s', result, ?_, ?_, hcall'⟩
    · simp
    · rw [after_cons, hdeliver, Option.bind_some]
      exact hafter

/-! ## Services that were added -/

/-- The step adds a service under the name. -/
def Event.Adds (k : Name) : Event B C → Prop
  | .addService cpu name _ => (cpu.qualify name).after (cpu.qualify name).find = k
  | .other (.addService name _) => name.after name.find = k
  | _ => False

/-- What a step asks the service manager for, if it does. -/
theorem step_manager {e : Event B C} (hstep : step cpuname e s = some s') :
    s'.manager = s.manager ∨ ∃ request, CpcServiceManager.step request s.manager = some s'.manager ∧
      ∀ name b, request = .addService name b → e.Adds (name.after name.find) := by
  cases e with
  | waitForService t home name =>
    obtain ⟨-, ⟨-, rfl⟩ | ⟨-, rfl⟩⟩ := waitForService_cases hstep
    · exact .inl rfl
    · refine .inr ⟨.registerForNotifications name (some (.inl t)), rfl, ?_⟩
      intro _ _ heq
      cases heq
  | goOn t =>
    simp only [step, goOn] at hstep
    split at hstep
    · cases hstep
    · rename_i call hcall
      split at hstep
      · cases hstep
        exact .inl rfl
      · split_ifs at hstep
        cases hstep
        exact .inl manager_unlist
      · rename_i w waiters hstage
        cases hstep
        refine .inr ⟨.unregisterForNotifications call.name (some (.inl w)), rfl, ?_⟩
        intro _ _ heq
        cases heq
      · cases hstep
        exact .inl rfl
      · cases hstep
  | deliver i =>
    simp only [step, deliver] at hstep
    split_ifs at hstep
    obtain ⟨⟨k, c⟩, -, rfl⟩ := Option.map_eq_some_iff.mp hstep
    refine .inl ?_
    unfold notified
    split
    · split <;> rfl
    · rfl
  | addService cpu name b =>
    cases hstep
    rcases hvalid : isValidServiceName name with _ | _
    · refine .inl ?_
      exact addService_manager.trans (if_neg (by simp [hvalid]))
    · refine .inr ⟨.addService (cpu.qualify name) b, ?_, ?_⟩
      · exact congrArg some (addService_manager.trans (if_pos hvalid)).symm
      · rintro _ _ ⟨⟩
        rfl
  | other e =>
    obtain ⟨m, hm, rfl⟩ := Option.map_eq_some_iff.mp hstep
    refine .inr ⟨other e, hm, fun name b heq => ?_⟩
    cases e with
    | addService name' b' =>
      cases heq
      rfl
    | _ => cases heq

/-- Every service that is known, or of which someone was told, has a name in `P`. -/
structure Named (P : Name → Prop) (s : Waiting B C) : Prop where
  known : ∀ k, k ∈ s.manager.mNameToService → P k
  called : ∀ k c, (k, c) ∈ s.manager.called → P k

theorem Named.step {P : Name → Prop} {e : Event B C} (h : Named P s)
    (hstep : step cpuname e s = some s') (hadds : ∀ k, e.Adds k → P k) : Named P s' := by
  rcases step_manager hstep with hmanager | ⟨request, hrequest, hnames⟩
  · exact ⟨hmanager ▸ h.known, hmanager ▸ h.called⟩
  · have hknown : ∀ k, k ∈ s'.manager.mNameToService → P k := by
      intro k hk
      rcases CpcServiceManager.step_known hrequest hk with hk | ⟨name, b, hadd, hname⟩
      · exact h.known k hk
      · exact hadds k (hname ▸ hnames name b hadd)
    refine ⟨hknown, fun k c hmem => ?_⟩
    rcases CpcServiceManager.step_told hrequest hmem with hmem | hk
    · exact h.called k c hmem
    · exact hknown k hk

theorem Named.after (h : prog.after (Waiting.step cpuname) events (Waiting.start dead defaults) =
    some s) : Named (fun k => ∃ e ∈ events, e.Adds k) s := by
  have hmeets : Meets (Waiting.step cpuname) (fun e _ => e ∈ events) events
      (Waiting.start dead defaults) := Meets.of_mem fun e he => he
  refine after_inv_of_meets _ (fun e s s' hstep he hs => ?_) hmeets h ?_
  · exact Named.step hs hstep fun k hk => ⟨e, he, hk⟩
  · refine ⟨fun k hk => ?_, fun k c hmem => ?_⟩
    · simp [Waiting.start, CpcServiceManager.start] at hk
    · cases hmem

/-! ## Services that last -/

/-- Services are added by the shims of the CPUs, and none is lost. -/
def Event.Lasts : Event B C → Prop
  | .addService cpu _ _ => '/' ∉ cpu
  | .other (.addService _ _) | .other (.binderDied _) => False
  | _ => True

/-- The call was told before it took its callback back, and for a plain name it returned a service
that was added. -/
structure Ends (cpuname : Nat → Name) (added : Name → Name → B → Prop) (call : WaitCall B) :
    Prop where
  ready : ∀ waiters, call.stage = .drops waiters → call.mReady = true
  result : ∀ result, call.stage = .done result → isValidServiceName call.name = true →
    '/' ∉ call.name → ∃ cpu b, added cpu call.name b ∧
      result = some (registered (cpuname call.home) cpu call.name b)

/-- The default service manager of its CPU has each service, which was added there, and who was told
of a service was told of one that is still there. -/
structure Homed (cpuname : Nat → Name) (added : Name → Name → B → Prop) (s : Waiting B C) :
    Prop where
  services : ∀ k service, s.manager.mNameToService[k]? = some service → '/' ∉ service.cpuname ∧
    s.cpus.defaultServiceManager service.cpuname k = some service.binder ∧
      added service.cpuname k service.binder
  told : ∀ k c, (k, c) ∈ s.manager.called → k ∈ s.manager.mNameToService
  ends : ∀ t call, s.calls t = some call → Ends cpuname added call

variable {added : Name → Name → B → Prop}

theorem ends_setCall (h : ∀ t call, s.calls t = some call → Ends cpuname added call)
    (hcall : Ends cpuname added call) : ∀ u call', (s.setCall t call).calls u = some call' →
      Ends cpuname added call' := by
  intro u call' hcall'
  rw [calls_setCall] at hcall'
  split_ifs at hcall'
  · cases hcall'
    exact hcall
  · exact h u call' hcall'

/-- What a shim adds is a service of its CPU, and the default service manager there has it. -/
theorem services_added {cpu name : Name} {b : B} {cpus cpus' : Cpus B (Nat ⊕ C)}
    (hcpus : cpus' = CpcServiceManagerShim.added cpu name b cpus) (hcpu : '/' ∉ cpu)
    (hname : isValidServiceName name = true)
    (hservices : ∀ k service, cpus.mTheRealServiceManager.mNameToService[k]? = some service →
      '/' ∉ service.cpuname ∧ cpus.defaultServiceManager service.cpuname k = some service.binder ∧
        added service.cpuname k service.binder) (hadded : added cpu name b) :
    ∀ k service, cpus'.mTheRealServiceManager.mNameToService[k]? = some service →
      '/' ∉ service.cpuname ∧ cpus'.defaultServiceManager service.cpuname k =
        some service.binder ∧ added service.cpuname k service.binder := by
  subst hcpus
  intro k service hget
  rw [CpcServiceManagerShim.added_default hname]
  rw [CpcServiceManagerShim.added_manager hname,
    CpcServiceManager.addService_of_valid (by simpa [hcpu] using hname)] at hget
  simp only [Name.after_qualify hcpu, Name.before_qualify hcpu, TreeMap.getElem?_insert,
    Std.compare_eq_iff_eq] at hget
  split_ifs at hget with heq
  · cases hget
    subst heq
    simp [hcpu, hadded]
  · obtain ⟨hplain, hdefault, hwas⟩ := hservices k service hget
    refine ⟨hplain, ?_, hwas⟩
    by_cases hhere : service.cpuname = cpu
    · have hne : k ≠ name := Ne.symm heq
      rw [hhere, Function.update_self, Function.update_of_ne hne, ← hhere]
      exact hdefault
    · rw [Function.update_of_ne hhere]
      exact hdefault

/-- A step of a world in which services last adds a service of a CPU, or leaves the services. -/
theorem lasts_services {e : Event B C} (hlasts : e.Lasts)
    (hstep : step cpuname e s = some s') :
    (s'.manager.mNameToService = s.manager.mNameToService ∧
      s'.cpus.defaultServiceManager = s.cpus.defaultServiceManager) ∨
    ∃ cpu name b, e = .addService cpu name b ∧ isValidServiceName name = true ∧
      s'.cpus = CpcServiceManagerShim.added cpu name b s.cpus := by
  cases e with
  | waitForService t home name =>
    obtain ⟨-, ⟨-, rfl⟩ | ⟨-, rfl⟩⟩ := waitForService_cases hstep
    · exact .inl ⟨rfl, rfl⟩
    · exact .inl ⟨CpcServiceManager.registerForNotifications_services, rfl⟩
  | goOn t =>
    simp only [step, goOn] at hstep
    split at hstep
    · cases hstep
    · split at hstep
      · cases hstep
        exact .inl ⟨rfl, rfl⟩
      · split_ifs at hstep
        cases hstep
        refine .inl ⟨congrArg _ manager_unlist, ?_⟩
        unfold unlist
        dsimp only
        split <;> rfl
      · cases hstep
        exact .inl ⟨CpcServiceManager.unregisterForNotifications_services, rfl⟩
      · cases hstep
        exact .inl ⟨rfl, rfl⟩
      · cases hstep
  | deliver i =>
    simp only [step, deliver] at hstep
    split_ifs at hstep
    obtain ⟨⟨k, c⟩, -, rfl⟩ := Option.map_eq_some_iff.mp hstep
    refine .inl ?_
    unfold notified
    split
    · split
      · exact ⟨rfl, rfl⟩
      · exact ⟨rfl, rfl⟩
    · exact ⟨rfl, rfl⟩
  | addService cpu name b =>
    cases hstep
    rcases hvalid : isValidServiceName name with _ | _
    · refine .inl ?_
      unfold CpcServiceManagerShim.addService
      rw [if_pos (by simp [hvalid])]
      exact ⟨rfl, rfl⟩
    · exact .inr ⟨cpu, name, b, rfl, hvalid, rfl⟩
  | other e =>
    obtain ⟨m, hm, rfl⟩ := Option.map_eq_some_iff.mp hstep
    refine .inl ⟨?_, rfl⟩
    cases e with
    | addService name b => cases hlasts
    | binderDied who => cases hlasts
    | registerForNotifications name callback =>
      cases hm
      exact CpcServiceManager.registerForNotifications_services
    | unregisterForNotifications name callback =>
      cases hm
      exact CpcServiceManager.unregisterForNotifications_services
    | die binder =>
      simp only [other, CpcServiceManager.step] at hm
      split_ifs at hm
      cases hm
      rfl

theorem Homed.step {e : Event B C} (h : Homed cpuname added s) (hsound : ∀ t, Sound t s)
    (hstep : step cpuname e s = some s') (hlasts : e.Lasts)
    (hadded : ∀ cpu name b, e = .addService cpu name b → added cpu name b) :
    Homed cpuname added s' := by
  have hservices : ∀ k service, s'.manager.mNameToService[k]? = some service →
      '/' ∉ service.cpuname ∧ s'.cpus.defaultServiceManager service.cpuname k =
        some service.binder ∧ added service.cpuname k service.binder := by
    rcases lasts_services hlasts hstep with ⟨hsame, hdefault⟩ | ⟨cpu, name, b, rfl, hname, hcpus⟩
    · intro k service hget
      rw [hsame] at hget
      rw [hdefault]
      exact h.services k service hget
    · exact services_added hcpus hlasts hname h.services (hadded cpu name b rfl)
  have hlost : ∀ k, k ∈ s.manager.mNameToService → k ∈ s'.manager.mNameToService := by
    intro k hk
    rcases lasts_services hlasts hstep with ⟨hsame, -⟩ | ⟨cpu, name, b, rfl, hname, hcpus⟩
    · rw [hsame]
      exact hk
    · have hcpu : '/' ∉ cpu := hlasts
      unfold manager
      rw [hcpus, CpcServiceManagerShim.added_manager hname,
        CpcServiceManager.addService_of_valid (by simpa [hcpu] using hname)]
      exact TreeMap.mem_insert.mpr (.inr hk)
  have htold : ∀ k c, (k, c) ∈ s'.manager.called → k ∈ s'.manager.mNameToService := by
    intro k c hmem
    rcases step_manager hstep with hmanager | ⟨request, hrequest, -⟩
    · rw [hmanager] at hmem
      exact hlost k (h.told k c hmem)
    · rcases CpcServiceManager.step_told hrequest hmem with hmem | hk
      · exact hlost k (h.told k c hmem)
      · exact hk
  refine ⟨hservices, htold, ?_⟩
  cases e with
  | waitForService t home name =>
    obtain ⟨-, ⟨hvalid, rfl⟩ | ⟨hvalid, rfl⟩⟩ := waitForService_cases hstep
    · refine ends_setCall h.ends ⟨fun _ heq => (by cases heq), fun _ _ hname => ?_⟩
      rw [hvalid] at hname
      cases hname
    · exact ends_setCall (s := s.setManager _) h.ends
        ⟨fun _ heq => (by cases heq), fun _ heq => (by cases heq)⟩
  | goOn t =>
    simp only [Waiting.step, goOn] at hstep
    split at hstep
    · cases hstep
    · rename_i call hcall
      split at hstep
      · cases hstep
        exact ends_setCall h.ends ⟨fun _ heq => (by cases heq), fun _ heq => (by cases heq)⟩
      · split_ifs at hstep with hready
        cases hstep
        rw [calls_unlist]
        exact ends_setCall h.ends ⟨fun _ _ => hready, fun _ heq => (by cases heq)⟩
      · rename_i w waiters hstage
        cases hstep
        exact ends_setCall (s := s.setManager _) h.ends
          ⟨fun _ _ => (h.ends t call hcall).ready _ hstage, fun _ heq => (by cases heq)⟩
      · rename_i hstage
        cases hstep
        refine ends_setCall h.ends ⟨fun _ heq => (by cases heq), ?_⟩
        rintro _ ⟨⟩ hvalid hplain
        have hready := (h.ends t call hcall).ready _ hstage
        have hknown := h.told _ _ ((hsound t).heard call hcall hready)
        obtain ⟨service, hget⟩ := Option.isSome_iff_exists.mp
          (TreeMap.isSome_getElem?_iff_mem.mpr hknown)
        obtain ⟨-, hdefault, hwas⟩ := h.services _ service hget
        refine ⟨service.cpuname, service.binder, hwas, ?_⟩
        have hcpus : s.manager.CpuNames := fun k service hget => (h.services k service hget).1
        rw [CpcServiceManagerShim.getService_of_plain hcpus hplain, hget, Option.bind_some]
        unfold CpcServiceManagerShim.resolve registered
        by_cases hhere : service.cpuname = cpuname call.home
        · rw [if_pos hhere, if_pos hhere.symm, ← hhere, hdefault]
          rfl
        · rw [if_neg hhere, if_neg (Ne.symm hhere)]
      · cases hstep
  | deliver i =>
    simp only [Waiting.step, deliver] at hstep
    split_ifs at hstep
    obtain ⟨⟨k, c⟩, -, rfl⟩ := Option.map_eq_some_iff.mp hstep
    unfold notified
    split
    · split
      · rename_i call hcall
        exact ends_setCall (s := { s with delivered := i :: s.delivered }) h.ends
          ⟨fun _ _ => rfl, (h.ends _ call hcall).result⟩
      · exact h.ends
    · exact h.ends
  | addService cpu name b =>
    cases hstep
    exact h.ends
  | other e =>
    obtain ⟨m, -, rfl⟩ := Option.map_eq_some_iff.mp hstep
    exact h.ends

/-! ## The laws -/

/-- A process on the CPU cp waits for a service that the CPU ap adds. -/
def waitsForFoo : List (Event Nat Nat) :=
  [.waitForService 1 0 "foo".toList, .goOn 1, .addService "ap".toList "foo".toList 7]

/-- It is told, and returns. -/
def getsFoo : List (Event Nat Nat) := waitsForFoo ++ [.deliver 0, .goOn 1, .goOn 1, .goOn 1]

def onCp : Nat → Name := fun _ => "cp".toList

def noServices : Waiting Nat Nat := start (fun _ => false) fun _ _ => none

/-- In every order of calls, requests, deaths and deliveries: of a call that has returned nothing is
left, neither at the service manager nor in the table of any shim. -/
theorem a_wait_leaves_no_callback (cpuname : Nat → Name) (dead : B → Bool)
    (defaults : Name → Name → Option B) (events : List (Event B C)) (s : Waiting B C)
    (h : after (step cpuname) events (start dead defaults) = some s) (t : Nat) (call : WaitCall B)
    (hcall : s.calls t = some call) (result : Option (Endpoint B))
    (hdone : call.stage = .done result) :
    (∀ k, .inl t ∉ listeners k s.manager) ∧
      ∀ home k, ∀ entry ∈ (s.mNameToCallback home).getD k [], entry.1 ≠ t := by
  have hsound := Sound.after h t
  refine ⟨fun k hmem => ?_, fun home k entry hentry heq => ?_⟩
  · have hpos := registrations_pos.mpr hmem
    rw [hsound.held, Waiting.held, hcall, Option.elim_some, hdone] at hpos
    split_ifs at hpos
    · exact absurd hpos (lt_irrefl 0)
    · exact absurd hpos (lt_irrefl 0)
  · have hmem : entry ∈ s.entries home k t := by
      unfold entries
      rw [List.mem_filter]
      exact ⟨hentry, by simpa using heq⟩
    rw [hsound.kept, Waiting.kept, hcall, Option.elim_some, hdone] at hmem
    split_ifs at hmem <;> cases hmem


theorem foo_has_come : ∃ s call result, after (step onCp) getsFoo noServices = some s ∧
    s.calls 1 = some call ∧ call.stage = .done result ∧ call.name = "foo".toList := by
  have hrun : (after (step onCp) getsFoo noServices).map (fun s => (s.calls 1).map fun call =>
      (call.stage, call.name)) = some (some (.done (some (.session "ap".toList "foo".toList)),
        "foo".toList)) := by decide +kernel
  obtain ⟨s, hs, hcalls⟩ := Option.map_eq_some_iff.mp hrun
  obtain ⟨call, hcall, hstage⟩ := Option.map_eq_some_iff.mp hcalls
  simp only [Prod.mk.injEq] at hstage
  exact ⟨s, call, _, hs, hcall, hstage.1, hstage.2⟩

theorem a_wait_for_foo_leaves_no_callback : ∃ s : Waiting Nat Nat,
    after (step onCp) getsFoo noServices = some s ∧ ∀ k, .inl 1 ∉ listeners k s.manager := by
  obtain ⟨s, call, result, hs, hcall, hdone, -⟩ := foo_has_come
  exact ⟨s, hs, (a_wait_leaves_no_callback onCp (fun _ => false) (fun _ _ => none) getsFoo s hs 1
    call hcall result hdone).1⟩

/-- In every order of calls, requests and deliveries in which services are added by the shims of the
CPUs and none is lost: a call for a name without a '/' that has returned has not come back empty,
but with a service of that name that was added, as it is seen from the CPU of the call. -/
theorem a_wait_ends_with_a_service_that_was_added (cpuname : Nat → Name) (dead : B → Bool)
    (defaults : Name → Name → Option B) (events : List (Event B C)) (hlasts : ∀ e ∈ events, e.Lasts)
    (s : Waiting B C) (h : after (step cpuname) events (start dead defaults) = some s) (t : Nat)
    (call : WaitCall B) (hcall : s.calls t = some call) (result : Option (Endpoint B))
    (hdone : call.stage = .done result) (hvalid : isValidServiceName call.name = true)
    (hplain : '/' ∉ call.name) :
    ∃ cpu b, .addService cpu call.name b ∈ events ∧
      result = some (registered (cpuname call.home) cpu call.name b) := by
  have hmeets : Meets (step cpuname) (fun e _ => e ∈ events) events (start dead defaults) :=
    Meets.of_mem fun e he => he
  have hstart : (∀ t, Sound t (start dead defaults : Waiting B C)) ∧
      Homed cpuname (fun cpu name b => .addService cpu name b ∈ events)
        (start dead defaults : Waiting B C) := by
    refine ⟨fun _ => Sound.start, fun k service hget => ?_, fun k c hmem => ?_,
      fun t call hcall => ?_⟩
    · simp [start, CpcServiceManager.start] at hget
    · cases hmem
    · cases hcall
  have hhomed : (∀ t, Sound t s) ∧
      Homed cpuname (fun cpu name b => .addService cpu name b ∈ events) s := by
    refine after_inv_of_meets (fun s => (∀ t, Sound t s) ∧ Homed cpuname _ s)
      (fun e s s' hstep he hs => ?_) hmeets h hstart
    refine ⟨Sound.step hs.1 hstep, hs.2.step hs.1 hstep (hlasts e he) ?_⟩
    rintro cpu name b rfl
    exact he
  exact (hhomed.2.ends t call hcall).result result hdone hvalid hplain

theorem a_wait_for_foo_ends_with_foo : ∃ (s : Waiting Nat Nat) (call : WaitCall Nat) (cpu : Name)
    (b : Nat), after (step onCp) getsFoo noServices = some s ∧ s.calls 1 = some call ∧
      call.stage = .done (some (registered (onCp call.home) cpu "foo".toList b)) := by
  obtain ⟨s, call, result, hs, hcall, hdone, hname⟩ := foo_has_come
  have hlasts : ∀ e ∈ getsFoo, e.Lasts := by
    intro e he
    simp only [getsFoo, waitsForFoo, List.cons_append, List.nil_append, List.mem_cons,
      List.not_mem_nil, or_false] at he
    rcases he with rfl | rfl | rfl | rfl | rfl | rfl | rfl
    · trivial
    · trivial
    · exact (by decide : '/' ∉ "ap".toList)
    · trivial
    · trivial
    · trivial
    · trivial
  obtain ⟨cpu, b, -, hresult⟩ := a_wait_ends_with_a_service_that_was_added onCp (fun _ => false)
    (fun _ _ => none) getsFoo hlasts s hs 1 call hcall result hdone (by rw [hname]; decide)
    (by rw [hname]; decide)
  refine ⟨s, call, cpu, b, hs, hcall, ?_⟩
  rw [hdone, hresult, hname]

end system_binder.Waiting
