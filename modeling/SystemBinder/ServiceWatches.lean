-- Who is told when a service of the native service manager dies. `addService` hands the manager
-- itself to the function that links a binder, where the binder belongs.
import SystemBinder.ServiceRegistry

open prog finite_map

namespace system_binder

/-- An object keeps a recipient that is told of its death. -/
structure DeathLink where
  object : BitVec 64
  recipient : BitVec 64
deriving DecidableEq, Repr

/-- The rest of the process: the links that were made, and what else there is. -/
structure LinkWorld (V : Type) where
  links : List DeathLink
  rest : V

/-- What a service manager at the address `this` calls. A binder is remote where a proxy stands at
its address. `linkToDeath` is `BpBinder_Vfun_linkToDeath` of an object and a recipient, with NULL
for the cookie and no flags. -/
structure WatchCalls (V : Type) where
  this : BitVec 64
  m_DeathRecipient : BitVec 64
  isProxy : BitVec 64 → Bool
  getCallingPid : LinkWorld V → BitVec 32
  linkToDeath : BitVec 64 → BitVec 64 → Prog (LinkWorld V) Fault Int
  onRegistration : Long → BinderString → BitVec 64 → Prog (LinkWorld V) Fault Unit

namespace WatchCalls

variable {V : Type} (y : WatchCalls V)

/-- The calls of `ServiceManager_addService`: it passes `this` to the function of the binder. -/
def asCalls : ServiceCalls (LinkWorld V) where
  getCallingPid := fun w => .ok (y.getCallingPid w, w)
  remoteBinder := fun binder => pure (if y.isProxy binder = true then binder else 0)
  linkToDeath := fun _ => y.linkToDeath y.this y.m_DeathRecipient
  onRegistration := y.onRegistration

/-- A link is made on the object that is passed alone, and none where the call fails. -/
structure LinksOwn : Prop where
  own : ∀ {object recipient w status w'}, y.linkToDeath object recipient w = .ok (status, w') →
    ∀ l : DeathLink, l.object ≠ object → w'.links.count l = w.links.count l
  refused : ∀ {object recipient w status w'}, y.linkToDeath object recipient w = .ok (status, w') →
    status ≠ STATUS_OK → w'.links = w.links

/-! ## What is promised -/

/-- The binder of a service in the table. -/
def Registered {W : Type} (m : ServiceManager W) (binder : BitVec 64) : Prop :=
  ∃ e ∈ m.mNameToService.entries, Registry.BinderAt m.services e.value binder

/-- The manager is told of the death of every remote binder that is registered. -/
def Watches (m : ServiceManager (LinkWorld V)) : Prop :=
  ∀ binder, Registered m binder → y.isProxy binder = true →
    ⟨binder, y.m_DeathRecipient⟩ ∈ m.world.links

/-- After a request every remote binder that is registered is watched. The addition of a remote
binder makes one link, to that binder; or it fails, and changes neither the table nor a link. -/
def LinksRight (o : NameRequest) (m : ServiceManager (LinkWorld V))
    (r : Except Fault ((Int × BitVec 64) × ServiceManager (LinkWorld V))) : Prop :=
  ∀ answer m', r = .ok (answer, m') → y.Watches m' ∧
    ∀ binder allowIsolated dumpPriority, o.call = .addService binder allowIsolated dumpPriority →
      y.isProxy binder = true →
        (answer.1 = STATUS_OK → ∀ l, m'.world.links.count l =
          m.world.links.count l + if l = ⟨binder, y.m_DeathRecipient⟩ then 1 else 0) ∧
        (answer.1 ≠ STATUS_OK →
          m'.mNameToService = m.mNameToService ∧ m'.world.links = m.world.links)

/-- The links on all objects but the manager are those of `links`. -/
def OthersKept (links : List DeathLink) (_ : NameRequest) (_ : ServiceManager (LinkWorld V))
    (r : Except Fault ((Int × BitVec 64) × ServiceManager (LinkWorld V))) : Prop :=
  ∀ answer m', r = .ok (answer, m') →
    ∀ l : DeathLink, l.object ≠ y.this → m'.world.links.count l = links.count l

/-- A request that does not come to link a remote binder: its name is refused, or the manager, taken
for a proxy, refuses the link. -/
def Avoids (o : NameRequest) (m : ServiceManager (LinkWorld V)) : Prop :=
  ∀ binder allowIsolated dumpPriority, o.call = .addService binder allowIsolated dumpPriority →
    y.isProxy binder = true → ServiceManager.isValidServiceName o.text = false ∨
      ∀ w, y.linkToDeath y.this y.m_DeathRecipient m.world ≠ .ok (STATUS_OK, w)

/-! ## What the requests do -/

/-- No service has a remote binder. -/
def AllLocal (services : List BinderService) : Prop :=
  ∀ record ∈ services, y.isProxy record.binder = false

variable {y} {m : ServiceManager (LinkWorld V)} {name : Long} {binder : BitVec 64}
  {E : Fault → Prop}

theorem AllLocal.watches (h : y.AllLocal m.services) : y.Watches m := by
  rintro binder ⟨e, -, -, record, hrecord, rfl⟩ hproxy
  rw [h record (List.mem_of_getElem? hrecord)] at hproxy
  cases hproxy

/-- The services are those that were there. -/
def SameServices {α : Type} (m : ServiceManager (LinkWorld V)) :
    α → ServiceManager (LinkWorld V) → Prop := fun _ m' => m'.services = m.services

theorem onNames.same {α : Type} (f : Prog MapState Fault α) :
    wp (ServiceManager.onNames f) (SameServices m) anyFault m := by
  unfold ServiceManager.onNames
  rw [wp_zoom]
  exact wp_of_all (fun _ _ => rfl) fun _ => trivial

theorem onCallbacks.same {α : Type} (f : Prog MapState Fault α) :
    wp (ServiceManager.onCallbacks f) (SameServices m) anyFault m := by
  unfold ServiceManager.onCallbacks
  rw [wp_zoom]
  exact wp_of_all (fun _ _ => rfl) fun _ => trivial

theorem onWorld.same {α : Type} (f : Prog (LinkWorld V) Fault α) :
    wp (ServiceManager.onWorld f) (SameServices m) anyFault m := by
  unfold ServiceManager.onWorld
  rw [wp_zoom]
  exact wp_of_all (fun _ _ => rfl) fun _ => trivial

theorem serviceAt.same (service : Long) :
    wp (ServiceManager.serviceAt service) (fun _ m' => m' = m) anyFault m := by
  unfold wp ServiceManager.serviceAt
  cases m.services[service.toNat - 1]? with
  | none => trivial
  | some record => rfl

/-- A promise to the client leaves the binders. -/
theorem AllLocal.modified {services : List BinderService} (h : y.AllLocal services) (i : Nat) :
    y.AllLocal (services.modify i fun record => { record with guaranteeClient := true }) := by
  intro record hrecord
  obtain ⟨j, hj⟩ := List.mem_iff_getElem?.mp hrecord
  rw [List.getElem?_modify] at hj
  split at hj
  · obtain ⟨old, hold, rfl⟩ := Option.map_eq_some_iff.mp hj
    exact h old (List.mem_of_getElem? hold)
  · exact h record (List.mem_of_getElem? (by simpa using hj))

theorem tryGetService.allLocal (h : y.AllLocal m.services) :
    wp (ServiceManager.tryGetService name) (fun _ m' => y.AllLocal m'.services) anyFault m := by
  unfold ServiceManager.tryGetService
  rw [wp_bind]
  refine wp_imp (onNames.same _) ?_
  rintro ⟨status, service⟩ m' hsame
  have h' : y.AllLocal m'.services := by rwa [show m'.services = m.services from hsame]
  dsimp only
  rw [wp_ite]
  refine ⟨fun _ => h', fun _ => ?_⟩
  cases service with
  | none => exact h'
  | some service =>
    dsimp only
    rw [wp_ite]
    refine ⟨fun _ => h', fun _ => ?_⟩
    rw [wp_bind]
    refine wp_imp (serviceAt.same service) ?_
    rintro record m'' rfl
    rw [wp_ite]
    exact ⟨fun _ => h'.modified _, fun _ => h'⟩

theorem register.allLocal {record : BinderService} (h : y.AllLocal m.services)
    (hlocal : y.isProxy record.binder = false) :
    wp (ServiceManager.register y.asCalls name record) (fun _ m' => y.AllLocal m'.services)
      anyFault m := by
  unfold ServiceManager.register
  rw [wp_bind]
  by_cases hgranted : m.memory m.requests = true
  · rw [ServiceManager.wp_newService hgranted, wp_bind]
    refine wp_imp (onNames.same _) ?_
    rintro status m₁ (h₁ : m₁.services = m.services ++ [record])
    rw [wp_bind]
    refine wp_imp (onCallbacks.same _) ?_
    rintro ⟨found, callback⟩ m₂ (h₂ : m₂.services = m₁.services)
    have hlocals : y.AllLocal m₂.services := by
      rw [h₂, h₁]
      intro other hother
      rcases List.mem_append.mp hother with hold | hnew
      · exact h other hold
      · rw [List.mem_singleton.mp hnew]
        exact hlocal
    dsimp only
    rw [wp_ite]
    refine ⟨fun _ => ?_, fun _ => hlocals⟩
    rw [wp_bind, ServiceManager.wp_stringAt, wp_bind]
    refine wp_imp (onWorld.same _) ?_
    rintro _ m₃ (h₃ : m₃.services = m₂.services)
    rw [wp_pure, h₃]
    exact hlocals
  · unfold wp ServiceManager.newService
    rw [if_neg hgranted]
    trivial

/-- A local binder is not linked. -/
theorem watched.spec_local {w : LinkWorld V} (hlocal : y.isProxy binder = false) :
    wp (ServiceManager.watched y.asCalls binder) (fun ok w' => ok = true ∧ w' = w) E w := by
  unfold ServiceManager.watched asCalls
  dsimp only
  rw [wp_bind, wp_pure, if_neg (by simp [hlocal])]
  exact ⟨rfl, rfl⟩

/-- A link that the manager refuses to make on itself leaves the links as they were. -/
theorem watched.spec_refused {w : LinkWorld V} (laws : y.LinksOwn)
    (hproxy : y.isProxy binder = true) (hnonNull : binder ≠ 0)
    (hrefused : ∀ w', y.linkToDeath y.this y.m_DeathRecipient w ≠ .ok (STATUS_OK, w')) :
    wp (ServiceManager.watched y.asCalls binder) (fun ok w' => ok = false ∧ w'.links = w.links)
      anyFault w := by
  unfold ServiceManager.watched asCalls
  dsimp only
  rw [wp_bind, wp_pure, if_pos hproxy, if_pos hnonNull, wp_bind]
  refine wp_of_result (fun status w' hrun => ?_) fun _ _ => trivial
  have hne : status ≠ STATUS_OK := by
    rintro rfl
    exact hrefused w' hrun
  exact ⟨by simpa using hne, laws.refused hrun hne⟩

/-- An addition that does not come to link a remote binder fails and changes nothing, or its binder
is local. -/
theorem addService.avoids {allowIsolated : Bool} {dumpPriority : BitVec 32} (laws : y.LinksOwn)
    (h : y.AllLocal m.services)
    (havoids : y.isProxy binder = true →
      ServiceManager.isValidServiceName (m.strings name).chars = false ∨
        ∀ w, y.linkToDeath y.this y.m_DeathRecipient m.world ≠ .ok (STATUS_OK, w)) :
    wp (ServiceManager.addService y.asCalls name binder allowIsolated dumpPriority)
      (fun status m' => y.AllLocal m'.services ∧ (y.isProxy binder = true → status ≠ STATUS_OK ∧
        m'.mNameToService = m.mNameToService ∧ m'.world.links = m.world.links)) anyFault m := by
  unfold ServiceManager.addService
  rw [wp_bind]
  unfold ServiceManager.onWorld
  rw [wp_zoom]
  show wp (if binder = 0 then _ else _) _ _ m
  rw [wp_ite, wp_pure]
  refine ⟨fun _ => ⟨h, fun _ => ⟨by decide, rfl, rfl⟩⟩, fun hnonNull => ?_⟩
  rw [wp_bind, ServiceManager.wp_stringAt, wp_ite, wp_pure]
  refine ⟨fun _ => ⟨h, fun _ => ⟨by decide, rfl, rfl⟩⟩, fun hvalid => ?_⟩
  rw [wp_bind, wp_zoom]
  cases hproxy : y.isProxy binder with
  | false =>
    refine wp_imp (watched.spec_local hproxy) ?_
    rintro ok w ⟨rfl, rfl⟩
    rw [if_neg (by decide)]
    refine wp_imp (register.allLocal h hproxy) fun status m' hlocals => ⟨hlocals, fun hp => ?_⟩
    cases hp
  | true =>
    have hrefused := (havoids hproxy).resolve_left (by simpa using hvalid)
    refine wp_imp (watched.spec_refused laws hproxy hnonNull hrefused) ?_
    rintro ok w ⟨rfl, hlinks⟩
    rw [if_pos rfl]
    exact ⟨h, fun _ => ⟨by decide, rfl, hlinks⟩⟩

/-- A request that does not come to link a remote binder keeps the services local, and does what is
promised. -/
theorem handle.avoids {o : NameRequest} (laws : y.LinksOwn) (h : y.AllLocal m.services)
    (havoids : y.Avoids o m) :
    wp (ServiceManager.handle y.asCalls o) (fun answer m' => y.AllLocal m'.services ∧
      y.LinksRight o m (.ok (answer, m'))) anyFault m := by
  have hlook : ∀ answer m', y.AllLocal m'.services → (∀ b i d, o.call ≠ .addService b i d) →
      y.AllLocal m'.services ∧ y.LinksRight o m (.ok (answer, m')) := by
    intro answer m' h' hcall
    refine ⟨h', ?_⟩
    rintro _ _ ⟨⟩
    exact ⟨h'.watches, fun b i d hadd => absurd hadd (hcall b i d)⟩
  unfold ServiceManager.handle
  rw [wp_bind, wp_modify]
  cases hcall : o.call with
  | addService binder allowIsolated dumpPriority =>
    dsimp only
    rw [wp_bind]
    refine wp_imp (addService.avoids (m := { m with strings := o.strings }) laws h
      (havoids binder allowIsolated dumpPriority hcall)) ?_
    rintro status m' ⟨h', hremote⟩
    refine ⟨h', ?_⟩
    rintro _ _ ⟨⟩
    refine ⟨h'.watches, fun b i d hadd hproxy => ?_⟩
    rw [hcall] at hadd
    cases hadd
    obtain ⟨hne, htable, hlinks⟩ := hremote hproxy
    exact ⟨fun hok => absurd hok hne, fun _ => ⟨htable, hlinks⟩⟩
  | getService =>
    dsimp only
    unfold ServiceManager.getService
    rw [wp_bind]
    refine wp_imp (tryGetService.allLocal h) fun out m' h' => hlook _ m' h' ?_
    simp [hcall]
  | checkService =>
    dsimp only
    unfold ServiceManager.checkService
    rw [wp_bind]
    refine wp_imp (tryGetService.allLocal h) fun out m' h' => hlook _ m' h' ?_
    simp [hcall]

/-! ## Where the links are made -/

/-- No one waits for a registration, and the links on all objects but the manager are these. -/
structure Elsewhere (y : WatchCalls V) (links : List DeathLink) (m : ServiceManager (LinkWorld V)) :
    Prop where
  callbacks : Registry.Tabled m.strings [] m.mNameToRegistrationCallback
  same : ∀ l : DeathLink, l.object ≠ y.this → m.world.links.count l = links.count l

variable {links : List DeathLink}

theorem onNames.elsewhere {α : Type} (f : Prog MapState Fault α) (h : Elsewhere y links m) :
    wp (ServiceManager.onNames f) (fun _ m' => Elsewhere y links m' ∧ m'.strings = m.strings)
      anyFault m := by
  unfold ServiceManager.onNames
  rw [wp_zoom]
  exact wp_of_all (fun _ _ => ⟨⟨h.callbacks, h.same⟩, rfl⟩) fun _ => trivial

/-- Nobody is found who waits. -/
theorem onCallbacks.elsewhere (h : Elsewhere y links m) :
    wp (ServiceManager.onCallbacks (HashMap.find name)) (fun found m' =>
      found.2 = none ∧ Elsewhere y links m') anyFault m := by
  have hlaws := HashMapBase.stringCtor_laws m.strings
  unfold ServiceManager.onCallbacks HashMap.find
  rw [wp_zoom, wp_bind]
  refine wp_imp (HashMapBase.find.spec h.callbacks hlaws) ?_
  rintro found t ⟨rfl, hfound⟩
  have hnone : found = none := hfound
  rw [hnone]
  exact ⟨rfl, h.callbacks, h.same⟩

theorem tryGetService.elsewhere (h : Elsewhere y links m) :
    wp (ServiceManager.tryGetService name) (fun _ m' => Elsewhere y links m') anyFault m := by
  unfold ServiceManager.tryGetService
  rw [wp_bind]
  refine wp_imp (onNames.elsewhere _ h) ?_
  rintro ⟨status, service⟩ m' ⟨h', -⟩
  dsimp only
  rw [wp_ite]
  refine ⟨fun _ => h', fun _ => ?_⟩
  cases service with
  | none => exact h'
  | some service =>
    dsimp only
    rw [wp_ite]
    refine ⟨fun _ => h', fun _ => ?_⟩
    rw [wp_bind]
    refine wp_imp (serviceAt.same service) ?_
    rintro record m'' rfl
    rw [wp_ite]
    exact ⟨fun _ => ⟨h'.callbacks, h'.same⟩, fun _ => h'⟩

theorem register.elsewhere {record : BinderService} (h : Elsewhere y links m) :
    wp (ServiceManager.register y.asCalls name record) (fun _ m' => Elsewhere y links m')
      anyFault m := by
  unfold ServiceManager.register
  rw [wp_bind]
  by_cases hgranted : m.memory m.requests = true
  · rw [ServiceManager.wp_newService hgranted, wp_bind]
    refine wp_imp (onNames.elsewhere _ ⟨h.callbacks, h.same⟩) ?_
    rintro status m₁ ⟨h₁, -⟩
    rw [wp_bind]
    refine wp_imp (onCallbacks.elsewhere h₁) ?_
    rintro ⟨found, callback⟩ m₂ ⟨rfl, h₂⟩
    dsimp only [Option.getD_none]
    rw [if_neg (by simp)]
    exact h₂
  · unfold wp ServiceManager.newService
    rw [if_neg hgranted]
    trivial

theorem watched.elsewhere {w : LinkWorld V} (laws : y.LinksOwn) :
    wp (ServiceManager.watched y.asCalls binder) (fun _ w' =>
      ∀ l : DeathLink, l.object ≠ y.this → w'.links.count l = w.links.count l) anyFault w := by
  unfold ServiceManager.watched asCalls
  dsimp only
  rw [wp_bind, wp_pure, wp_ite]
  refine ⟨fun _ => ?_, fun _ _ _ => rfl⟩
  rw [wp_bind]
  exact wp_of_result (fun _ _ hrun l hl => laws.own hrun l hl) fun _ _ => trivial

theorem handle.elsewhere {o : NameRequest} (laws : y.LinksOwn) (h : Elsewhere y links m) :
    wp (ServiceManager.handle y.asCalls o) (fun _ m' => Elsewhere y links m') anyFault m := by
  have h₀ : Elsewhere y links { m with strings := o.strings } :=
    ⟨h.callbacks.moved (by simp), h.same⟩
  unfold ServiceManager.handle
  rw [wp_bind, wp_modify]
  cases o.call with
  | addService binder allowIsolated dumpPriority =>
    dsimp only
    unfold ServiceManager.addService ServiceManager.onWorld
    rw [wp_bind, wp_bind, wp_zoom]
    show wp (if binder = 0 then _ else _) _ _ _
    rw [wp_ite]
    refine ⟨fun _ => h₀, fun _ => ?_⟩
    rw [wp_bind, ServiceManager.wp_stringAt, wp_ite]
    refine ⟨fun _ => h₀, fun _ => ?_⟩
    rw [wp_bind, wp_zoom]
    refine wp_imp (watched.elsewhere laws) fun ok w hw => ?_
    have h₁ : Elsewhere y links { m with strings := o.strings, world := w } :=
      ⟨h₀.callbacks, fun l hl => (hw l hl).trans (h₀.same l hl)⟩
    rw [wp_ite]
    exact ⟨fun _ => h₁, fun _ => wp_imp (register.elsewhere h₁) fun _ _ h' => h'⟩
  | getService =>
    dsimp only
    unfold ServiceManager.getService
    rw [wp_bind]
    exact wp_imp (tryGetService.elsewhere h₀) fun _ _ h' => h'
  | checkService =>
    dsimp only
    unfold ServiceManager.checkService
    rw [wp_bind]
    exact wp_imp (tryGetService.elsewhere h₀) fun _ _ h' => h'

/-- Whatever is asked of it, the manager makes no link on another object than itself. -/
theorem only_the_manager_is_linked (y : WatchCalls V) (laws : y.LinksOwn)
    (strings : Long → BinderString) (memory : Nat → Bool) (world : LinkWorld V)
    (requests : List NameRequest) :
    Always (ServiceManager.handle y.asCalls) (y.OthersKept world.links) requests
      (ServiceManager.ctor strings memory world) := by
  have hstart : Elsewhere y world.links (ServiceManager.ctor strings memory world) :=
    ⟨⟨rfl, rfl, HashMapBase.holds_of_empty rfl rfl rfl rfl, .refl _⟩, fun _ _ => rfl⟩
  refine always_of_inv (Elsewhere y world.links) ?_ ?_ hstart allowed_all
  · intro o m h _ answer m' hrun
    exact ((handle.elsewhere laws h).of_ok hrun).same
  · intro o m answer m' h _ hrun
    exact (handle.elsewhere laws h).of_ok hrun

/-! ## The law -/

/-- In a run of requests none of which comes to link a remote binder, all that is promised of the
links is kept. In no run is a link made on another object than the manager, so a remote binder
whose addition succeeds is not linked. -/
theorem links_are_right_where_none_is_asked_for (y : WatchCalls V) (laws : y.LinksOwn)
    (strings : Long → BinderString) (memory : Nat → Bool) (world : LinkWorld V)
    (requests : List NameRequest) :
    (Allowed (ServiceManager.handle y.asCalls) y.Avoids requests
        (ServiceManager.ctor strings memory world) →
      y.Watches (ServiceManager.ctor strings memory world) ∧
        Always (ServiceManager.handle y.asCalls) y.LinksRight requests
          (ServiceManager.ctor strings memory world)) ∧
    Always (ServiceManager.handle y.asCalls) (y.OthersKept world.links) requests
      (ServiceManager.ctor strings memory world) := by
  refine ⟨fun havoids => ?_, only_the_manager_is_linked y laws strings memory world requests⟩
  have hstart : y.AllLocal (ServiceManager.ctor strings memory world).services := by
    intro record hrecord
    cases hrecord
  refine ⟨hstart.watches, always_of_inv (fun m => y.AllLocal m.services) ?_ ?_ hstart havoids⟩
  · intro o m h ho answer m' hrun
    have hright := ((handle.avoids laws h ho).of_ok hrun).2
    exact hright answer m' rfl
  · intro o m answer m' h ho hrun
    exact ((handle.avoids laws h ho).of_ok hrun).1

/-- A process with one proxy, where a call links the object that it is given. -/
def linking : WatchCalls Unit where
  this := 100
  m_DeathRecipient := 108
  isProxy := fun binder => binder == 5
  getCallingPid := fun _ => 1
  linkToDeath := fun object recipient w =>
    .ok (STATUS_OK, { w with links := ⟨object, recipient⟩ :: w.links })
  onRegistration := fun _ _ _ => pure ()

theorem linking_own : linking.LinksOwn where
  own := by
    rintro object recipient w status w' ⟨⟩ l hl
    rw [List.count_cons_of_ne]
    rintro rfl
    exact hl rfl
  refused := by
    rintro object recipient w status w' ⟨⟩ hne
    exact absurd rfl hne

/-- A manager that knows no service, in memory where every name is `foo`. -/
def idle : ServiceManager (LinkWorld Unit) :=
  ServiceManager.ctor (fun _ => Registry.named [102, 111, 111]) (fun _ => true) ⟨[], ()⟩

theorem links_are_right_for_a_local_and_a_nameless_binder :
    (linking.Watches idle ∧ Always (ServiceManager.handle linking.asCalls) linking.LinksRight
      [Registry.forFoo (.addService 7 false 0), Registry.forFoo .getService,
        ⟨.addService 5 false 0, 1, fun _ => Registry.named []⟩] idle) ∧
    Always (ServiceManager.handle linking.asCalls) (linking.OthersKept [])
      [Registry.forFoo (.addService 5 false 0), Registry.forFoo .getService] idle := by
  have hlaw := links_are_right_where_none_is_asked_for linking linking_own
    (fun _ => Registry.named [102, 111, 111]) (fun _ => true) ⟨[], ()⟩
  refine ⟨(hlaw _).1 ⟨?_, fun _ _ _ => ⟨?_, fun _ _ _ => ⟨?_, fun _ _ _ => trivial⟩⟩⟩, (hlaw _).2⟩
  · rintro _ _ _ ⟨⟩ hproxy
    exact absurd hproxy (by decide)
  · rintro _ _ _ ⟨⟩
  · rintro _ _ _ ⟨⟩ -
    exact .inl (by decide)

/-- A remote binder is added, and the manager is linked in its place. -/
theorem the_manager_is_linked_instead :
    ¬(linking.Watches idle ∧ Always (ServiceManager.handle linking.asCalls) linking.LinksRight
      [Registry.forFoo (.addService 5 false 0)] idle) := by
  obtain ⟨answer, m', hrun, rfl, hlinks⟩ : ∃ answer m',
      ServiceManager.handle linking.asCalls (Registry.forFoo (.addService 5 false 0)) idle =
        .ok (answer, m') ∧ answer = (STATUS_OK, 0) ∧ m'.world.links = [⟨100, 108⟩] :=
    wp_never_iff.mp (by decide +kernel)
  rintro ⟨-, h, -⟩
  have hone := ((h _ _ hrun).2 5 false 0 rfl rfl).1 rfl ⟨5, 108⟩
  rw [hlinks] at hone
  exact absurd hone (by decide)

end WatchCalls

end system_binder
