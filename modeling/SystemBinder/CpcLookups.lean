-- Where a service is found: the name it was registered under and the two forms of the name that
-- it is looked up by.
import SystemBinder.CpcServiceManager

open prog Std

set_option linter.unusedSectionVars false

namespace system_binder

namespace Name

variable {c n : Name}

/-! ## Names cut at the first '/' -/

theorem find_of_plain (h : '/' ∉ n) : n.find = none := by
  unfold find
  rw [List.findIdx?_eq_none_iff]
  intro x hx
  simpa using fun heq : x = '/' => h (heq ▸ hx)

theorem find_qualify (h : '/' ∉ c) : (c.qualify n).find = some c.length := by
  have hnone := find_of_plain h
  unfold find at hnone
  unfold find qualify
  rw [List.findIdx?_append, hnone, List.findIdx?_cons]
  simp

@[simp] theorem before_qualify (h : '/' ∉ c) : (c.qualify n).before (c.qualify n).find = c := by
  rw [find_qualify h]
  simp [before, qualify]

@[simp] theorem after_qualify (h : '/' ∉ c) : (c.qualify n).after (c.qualify n).find = n := by
  rw [find_qualify h]
  simp [after, qualify]

theorem plain_before : '/' ∉ n.before n.find := by
  unfold find
  cases hfind : n.findIdx? (· = '/') with
  | none =>
    rw [List.findIdx?_eq_none_iff] at hfind
    intro hmem
    simpa using hfind '/' hmem
  | some sep =>
    rw [List.findIdx?_eq_some_iff_getElem] at hfind
    obtain ⟨hlt, -, hfirst⟩ := hfind
    intro hmem
    obtain ⟨i, hi, heq⟩ := List.getElem_of_mem hmem
    simp only [before, List.length_take] at hi
    have hne := hfirst i (by omega)
    simp only [before, List.getElem_take] at heq
    simp [heq] at hne

/-- A name with a '/' is cut there, and what is behind it is shorter. -/
theorem find_of_slash (h : '/' ∈ n) :
    ∃ sep, n.find = some sep ∧ (n.after n.find).length < n.length := by
  unfold find
  cases hfind : n.findIdx? (· = '/') with
  | none =>
    rw [List.findIdx?_eq_none_iff] at hfind
    simpa using hfind '/' h
  | some sep =>
    rw [List.findIdx?_eq_some_iff_getElem] at hfind
    obtain ⟨hlt, -, -⟩ := hfind
    refine ⟨sep, rfl, ?_⟩
    simp only [after, List.length_drop]
    omega

end Name

namespace CpcServiceManager

variable {B C : Type} [DecidableEq B] [DecidableEq C] {s s' : CpcServiceManager B C}

/-! ## What a request does -/

theorem foldl_onRegistration {name : Name} {callbacks : List C} :
    callbacks.foldl (onRegistration name) s =
      { s with called := s.called ++ callbacks.map (name, ·) } := by
  induction callbacks generalizing s with
  | nil => simp
  | cons cb callbacks ih =>
    rw [List.foldl_cons, ih]
    simp [onRegistration]

/-- The links after a binder was added under a name. -/
def relinked (servname : Name) (binder : B) (s : CpcServiceManager B C) : Deaths B :=
  let deaths := (s.deaths.linkToDeath binder).2
  match s.mNameToService[servname]? with
  | some it => deaths.unlinkToDeath it.binder
  | none => deaths

/-- A service that is added stands under its name, and the callbacks of that name are called. -/
theorem addService_of_valid {name : Name} {binder : B}
    (h : isValidServiceName (name.after name.find) = true) :
    s.addService name binder = (.EX_NONE,
      { mNameToService := s.mNameToService.insert (name.after name.find)
          { binder := binder, cpuname := name.before name.find }
        mNameToCallback := s.mNameToCallback
        deaths := s.relinked (name.after name.find) binder
        called := s.called ++ (s.mNameToCallback.getD (name.after name.find) []).map
          (name.after name.find, ·) }) := by
  unfold addService relinked
  dsimp only
  rw [if_neg (by simp [h]), TreeMap.getD_eq_getD_getElem?]
  cases hcb : s.mNameToCallback[name.after name.find]? with
  | none =>
    have hnobody (t : CpcServiceManager B C) : t = { t with called := t.called ++ [] } := by simp
    exact congrArg (Prod.mk Exception.EX_NONE) (hnobody _)
  | some callbacks =>
    exact congrArg (Prod.mk Exception.EX_NONE) foldl_onRegistration

theorem addService_of_invalid {name : Name} {binder : B}
    (h : isValidServiceName (name.after name.find) = false) :
    s.addService name binder = (.EX_ILLEGAL_ARGUMENT, s) := by
  unfold addService
  dsimp only
  rw [if_pos (by simp [h])]

theorem registerForNotifications_services {name : Name} {callback : Option C} :
    (s.registerForNotifications name callback).2.mNameToService = s.mNameToService := by
  unfold registerForNotifications
  cases callback with
  | none => split <;> rfl
  | some callback =>
    dsimp only
    split_ifs <;> rfl

theorem unregisterForNotifications_services {name : Name} {callback : Option C} :
    (s.unregisterForNotifications name callback).2.mNameToService = s.mNameToService := by
  unfold unregisterForNotifications
  split
  · split_ifs <;> rfl
  · rfl

/-! ## The CPUs of the services -/

/-- The CPU of a service is a name without a '/'. -/
def CpuNames (s : CpcServiceManager B C) : Prop :=
  ∀ (servname : Name) (service : Service B), s.mNameToService[servname]? = some service →
    '/' ∉ service.cpuname

theorem CpuNames.same (h : CpuNames s) (heq : s'.mNameToService = s.mNameToService) :
    CpuNames s' := by
  unfold CpuNames
  rw [heq]
  exact h

theorem CpuNames.addService {name : Name} {binder : B} (h : CpuNames s) :
    CpuNames (s.addService name binder).2 := by
  cases hvalid : isValidServiceName (name.after name.find) with
  | false =>
    rw [addService_of_invalid hvalid]
    exact h
  | true =>
    rw [addService_of_valid hvalid]
    intro servname service hget
    simp only [TreeMap.getElem?_insert] at hget
    split_ifs at hget with heq
    · cases hget
      exact Name.plain_before
    · exact h servname service hget

theorem CpuNames.step {e : Event B C} (hstep : step e s = some s') (h : CpuNames s) :
    CpuNames s' := by
  cases e with
  | addService name binder =>
    cases hstep
    exact h.addService
  | registerForNotifications name callback =>
    cases hstep
    exact h.same registerForNotifications_services
  | unregisterForNotifications name callback =>
    cases hstep
    exact h.same unregisterForNotifications_services
  | die binder =>
    simp only [CpcServiceManager.step] at hstep
    split_ifs at hstep
    cases hstep
    exact h
  | binderDied who =>
    simp only [CpcServiceManager.step] at hstep
    split_ifs at hstep
    cases hstep
    intro servname service hget
    simp only [binderDied, TreeMap.getElem?_filter', Option.filter_eq_some_iff] at hget
    exact h servname service hget.1

theorem CpuNames.after {history : List (Event B C)} {dead : B → Bool}
    (h : after CpcServiceManager.step history (start C dead) = some s) : CpuNames s :=
  after_inv CpuNames (fun _ _ _ hstep => CpuNames.step hstep) h
    (fun servname service hget => by simp [start] at hget)

/-- The loop over the listed services finds the one of that name. -/
theorem CpuNames.find_listed (h : CpuNames s) (n : Name) :
    (s.listServices.find? fun i => n = i.after i.find) =
      s.mNameToService[n]?.map fun service => service.cpuname.qualify n := by
  -- what is behind the first '/' of a listed name is the name of the service
  have hlisted : ∀ x ∈ s.mNameToService.toList,
      (x.2.cpuname.qualify x.1).after (x.2.cpuname.qualify x.1).find = x.1 := by
    intro x hx
    have hget : s.mNameToService[x.1]? = some x.2 := TreeMap.mem_toList_iff_getElem?_eq_some.mp hx
    exact Name.after_qualify (h x.1 x.2 hget)
  unfold listServices
  rw [List.find?_map]
  cases hfind : s.mNameToService.toList.find?
      ((fun i => decide (n = i.after i.find)) ∘ fun x => x.2.cpuname.qualify x.1) with
  | none =>
    rw [List.find?_eq_none] at hfind
    have hnone : s.mNameToService[n]? = none := by
      by_contra hsome
      obtain ⟨service, hget⟩ := Option.ne_none_iff_exists'.mp hsome
      have hmem := TreeMap.mem_toList_iff_getElem?_eq_some.mpr hget
      have hne := hfind (n, service) hmem
      simp only [Function.comp_apply, hlisted _ hmem] at hne
      simp at hne
    rw [hnone]
    rfl
  | some x =>
    have hmem := List.mem_of_find?_eq_some hfind
    have heq := List.find?_some hfind
    simp only [Function.comp_apply, hlisted x hmem, decide_eq_true_eq] at heq
    have hget : s.mNameToService[n]? = some x.2 :=
      heq ▸ TreeMap.mem_toList_iff_getElem?_eq_some.mp hmem
    rw [hget, heq]
    rfl

end CpcServiceManager

namespace CpcServiceManagerShim

variable {B C : Type} [DecidableEq B] [DecidableEq C]

/-! ## Lookups -/

/-- Where a service of the CPU `cpuname` is, seen from `caller`. -/
def registered (caller cpuname servname : Name) (binder : B) : Endpoint B :=
  if caller = cpuname then .binder binder else .session cpuname servname

/-- The state after a CPU added a service. -/
def added (cpuname servname : Name) (binder : B) (cpus : Cpus B C) : Cpus B C :=
  (addService cpuname servname binder cpus).2

section

variable {caller c n name : Name} {b : B} {cpus : Cpus B C}

theorem getService_of_slash (h : '/' ∈ name) : getService caller name cpus =
    resolve caller name (name.before name.find) (name.after name.find) cpus := by
  obtain ⟨sep, hfind, -⟩ := Name.find_of_slash h
  unfold getService
  simp only [hfind]

theorem getService_of_plain (hcpus : cpus.mTheRealServiceManager.CpuNames) (h : '/' ∉ name) :
    getService caller name cpus =
      (cpus.mTheRealServiceManager.mNameToService[name]?).bind fun service =>
        resolve caller name service.cpuname name cpus := by
  unfold getService
  simp only [Name.find_of_plain h, hcpus.find_listed]
  cases hget : cpus.mTheRealServiceManager.mNameToService[name]? with
  | none => rfl
  | some service =>
    have hplain := hcpus name service hget
    simp [Name.before_qualify hplain]

theorem getService_of_qualified (h : '/' ∉ c) :
    getService caller (c.qualify n) cpus = resolve caller (c.qualify n) c n cpus := by
  have hslash : '/' ∈ c.qualify n := by simp [Name.qualify]
  rw [getService_of_slash hslash, Name.before_qualify h, Name.after_qualify h]

theorem added_default (hn : isValidServiceName n = true) :
    (added c n b cpus).defaultServiceManager =
      Function.update cpus.defaultServiceManager c
        (Function.update (cpus.defaultServiceManager c) n (some b)) := by
  unfold added addService
  rw [if_neg (by simp [hn])]

theorem added_manager (hn : isValidServiceName n = true) :
    (added c n b cpus).mTheRealServiceManager =
      (cpus.mTheRealServiceManager.addService (c.qualify n) b).2 := by
  unfold added addService
  rw [if_neg (by simp [hn])]

theorem added_service (hn : isValidServiceName n = true) (hc : '/' ∉ c) :
    (added c n b cpus).mTheRealServiceManager.mNameToService[n]? =
      some { binder := b, cpuname := c } := by
  rw [added_manager hn, CpcServiceManager.addService_of_valid (by simpa [hc] using hn)]
  simp [hc]

theorem resolve_added (hn : isValidServiceName n = true) :
    resolve caller n c n (added c n b cpus) = some (registered caller c n b) := by
  unfold resolve registered
  by_cases hcaller : c = caller
  · simp [hcaller, added_default hn]
  · simp [hcaller, Ne.symm hcaller]

/-- The name alone finds the service from every CPU. -/
theorem getService_added (hcpus : cpus.mTheRealServiceManager.CpuNames)
    (hn : isValidServiceName n = true) (hplain : '/' ∉ n) (hc : '/' ∉ c) :
    getService caller n (added c n b cpus) = some (registered caller c n b) := by
  have hnames : (added c n b cpus).mTheRealServiceManager.CpuNames := by
    rw [added_manager hn]
    exact hcpus.addService
  rw [getService_of_plain hnames hplain, added_service hn hc, Option.bind_some, resolve_added hn]

end

variable {history : List (CpcServiceManager.Event B C)} {dead : B → Bool}
  {manager : CpcServiceManager B C}

/-- After whatever the service manager was asked before: a service that a CPU adds is found from
every CPU by its name, in the default service manager of its own CPU and over RPC from the others,
exactly where there is no '/' in its name. -/
theorem names_without_a_slash_are_found
    (h : after CpcServiceManager.step history (CpcServiceManager.start C dead) = some manager)
    (defaults : Name → Name → Option B) (c n : Name) (b : B) (hc : '/' ∉ c)
    (hn : isValidServiceName n = true) :
    (∀ caller, '/' ∉ caller → getService caller n (added c n b ⟨manager, defaults⟩) =
      some (registered caller c n b)) ↔ '/' ∉ n := by
  have hcpus := CpcServiceManager.CpuNames.after h
  constructor
  · intro hfound hslash
    obtain ⟨sep, hfind, hless⟩ := Name.find_of_slash hslash
    -- a CPU that is neither that of the service nor what stands before the '/'
    have hcaller : '/' ∉ 'x' :: (c ++ n.before n.find) := by
      simpa [hc] using Name.plain_before
    have hother := hfound _ hcaller
    have hc' : 'x' :: (c ++ n.before n.find) ≠ c := fun heq => by
      have hlen := congrArg List.length heq
      simp at hlen
      omega
    have hbefore : n.before n.find ≠ 'x' :: (c ++ n.before n.find) := fun heq => by
      have hlen := congrArg List.length heq
      simp at hlen
      omega
    rw [getService_of_slash hslash, resolve, if_neg hbefore, registered, if_neg hc'] at hother
    have hsame : n.after n.find = n := by
      injection hother with hother
      injection hother
    rw [hsame] at hless
    exact lt_irrefl _ hless
  · intro hplain caller _
    exact getService_added hcpus hn hplain hc

/-- Nothing was registered yet. -/
def quiet : Cpus Nat Nat where
  mTheRealServiceManager := CpcServiceManager.start Nat fun _ => false
  defaultServiceManager := fun _ _ => none

theorem nothing_asked :
    after CpcServiceManager.step [] quiet.mTheRealServiceManager =
      some quiet.mTheRealServiceManager := rfl

/-- A service of one CPU, looked up from another. -/
theorem foo_is_found_from_another_cpu :
    getService "cp".toList "foo".toList
        (added "ap".toList "foo".toList 7 quiet) =
      some (registered "cp".toList "ap".toList "foo".toList 7) :=
  (names_without_a_slash_are_found nothing_asked (fun _ _ => none)
    "ap".toList "foo".toList 7 (by decide) (by decide)).mpr (by decide) "cp".toList (by decide)

/-- An instance name with a '/' leads to a CPU that is not there. -/
theorem an_instance_name_leads_elsewhere :
    isValidServiceName "IFoo/default".toList = true ∧
      getService "cp".toList "IFoo/default".toList
          (added "ap".toList "IFoo/default".toList 7 quiet) =
        some (.session "IFoo".toList "default".toList) ∧
      getService "cp".toList "IFoo/default".toList
          (added "ap".toList "IFoo/default".toList 7 quiet) ≠
        some (registered "cp".toList "ap".toList "IFoo/default".toList 7) := by
  decide +kernel

/-- The two forms of the name of a service that was added lead to it from the CPU `caller` exactly
where that is another CPU, or the default service manager had the service under the whole name
before. -/
theorem both_names_lead_to_the_service
    (h : after CpcServiceManager.step history (CpcServiceManager.start C dead) = some manager)
    (defaults : Name → Name → Option B) (c n caller : Name) (b : B) (hplain : '/' ∉ n)
    (hn : isValidServiceName n = true) :
    (getService caller (c.qualify n) (added c n b ⟨manager, defaults⟩) =
        getService caller n (added c n b ⟨manager, defaults⟩) ∧
      getService caller n (added c n b ⟨manager, defaults⟩) = some (registered caller c n b)) ↔
    '/' ∉ c ∧ (caller ≠ c ∨ defaults c (c.qualify n) = some b) := by
  have hcpus := CpcServiceManager.CpuNames.after h
  by_cases hc : '/' ∈ c
  · -- no service is known of a CPU with such a name
    have hnames : (added c n b ⟨manager, defaults⟩).mTheRealServiceManager.CpuNames := by
      rw [added_manager hn]
      exact hcpus.addService
    simp only [hc, not_true_eq_false, false_and, iff_false, not_and]
    intro _ hfound
    rw [getService_of_plain hnames hplain, Option.bind_eq_some_iff] at hfound
    obtain ⟨service, hget, hresolve⟩ := hfound
    have hne : service.cpuname ≠ c := fun heq => hnames n service hget (heq ▸ hc)
    unfold resolve registered at hresolve
    split_ifs at hresolve with hlocal hcaller
    · exact hne (hlocal.trans hcaller)
    · simp at hresolve
    · cases hresolve
    · cases hresolve
      exact hne rfl
  · rw [getService_added hcpus hn hplain hc, getService_of_qualified hc]
    have hother : c.qualify n ≠ n := fun heq => by
      have hlen := congrArg List.length heq
      simp [Name.qualify] at hlen
      omega
    unfold resolve registered
    by_cases hcaller : caller = c
    · simp [hcaller, hc, added_default hn, hother]
    · simp [hcaller, Ne.symm hcaller, hc]

/-- From another CPU both names lead to the service. -/
theorem both_names_lead_to_foo :
    getService "cp".toList (Name.qualify "ap".toList "foo".toList)
          (added "ap".toList "foo".toList 7 quiet) =
        getService "cp".toList "foo".toList
          (added "ap".toList "foo".toList 7 quiet) ∧
      getService "cp".toList "foo".toList
          (added "ap".toList "foo".toList 7 quiet) =
        some (registered "cp".toList "ap".toList "foo".toList 7) :=
  (both_names_lead_to_the_service nothing_asked (fun _ _ => none)
    "ap".toList "foo".toList "cp".toList 7 (by decide) (by decide)).mpr
    ⟨by decide, .inl (by decide)⟩

/-- On its own CPU the service is not found under its whole name. -/
theorem the_whole_name_is_lost_at_home :
    getService "ap".toList (Name.qualify "ap".toList "foo".toList)
          (added "ap".toList "foo".toList 7 quiet) = none ∧
      getService "ap".toList "foo".toList
          (added "ap".toList "foo".toList 7 quiet) =
        some (.binder 7) := by
  decide +kernel

end CpcServiceManagerShim

end system_binder
