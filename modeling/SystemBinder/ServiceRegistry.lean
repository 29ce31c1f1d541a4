-- Runs of requests to the native service manager: when the binder that was added last under a
-- name is the one that is found there.
import SystemBinder.HashMapLaws
import SystemBinder.ServiceManager

open prog finite_map

namespace system_binder

inductive NameCall
  | addService (binder : BitVec 64) (allowIsolated : Bool) (dumpPriority : BitVec 32)
  | getService
  | checkService
deriving DecidableEq, Repr

/-- A request: the address of its name, and the String records in memory while it is handled. -/
structure NameRequest where
  call : NameCall
  name : Long
  strings : Long → BinderString

/-- The text of the name. -/
def NameRequest.text (o : NameRequest) : List UInt8 := (o.strings o.name).chars

/-- The binder that a request adds. NULL is refused. -/
def NameRequest.adds (o : NameRequest) : Option (BitVec 64) :=
  match o.call with
  | .addService binder _ _ => if binder = 0 then none else some binder
  | _ => none

/-- What a request answers: the status, and the binder that it hands out. -/
def ServiceManager.handle {W : Type} (x : ServiceCalls W) (o : NameRequest) :
    Prog (ServiceManager W) Fault (Int × BitVec 64) := do
  modify fun s => { s with strings := o.strings }
  match o.call with
  | .addService binder allowIsolated dumpPriority => do
    let status ← addService x o.name binder allowIsolated dumpPriority
    pure (status, 0)
  | .getService => getService o.name
  | .checkService => checkService o.name

/-- A service that was added: the address of its name then, the name, and the binder. -/
structure Accepted where
  name : Long
  text : List UInt8
  binder : BitVec 64
deriving DecidableEq, Repr

/-- The service manager and what `addService` returned `STATUS_OK` for, the latest first. -/
structure Registry (W : Type) where
  manager : ServiceManager W
  accepted : List Accepted

/-- The binder that was added last under a name, or NULL. -/
def latest (accepted : List Accepted) (text : List UInt8) : BitVec 64 :=
  ((accepted.find? fun a => a.text = text).map Accepted.binder).getD 0

/-- What a request adds to what was accepted. -/
def acceptedBy (o : NameRequest) (status : Int) : List Accepted :=
  match o.call with
  | .addService binder _ _ => if status = STATUS_OK then [⟨o.name, o.text, binder⟩] else []
  | _ => []

namespace Registry

variable {W : Type} (x : ServiceCalls W)

/-- One request. -/
def step (o : NameRequest) : Prog (Registry W) Fault (Int × BitVec 64) := do
  let answer ← zoom Registry.manager (fun m s => { s with manager := m })
    (ServiceManager.handle x o)
  modify fun s => { s with accepted := acceptedBy o answer.1 ++ s.accepted }
  pure answer

/-- A lookup finds the binder that was added last. -/
def FindsLatest (o : NameRequest) (s : Registry W)
    (result : Except Fault ((Int × BitVec 64) × Registry W)) : Prop :=
  o.call = .getService ∨ o.call = .checkService →
    ∃ s', result = .ok ((STATUS_OK, latest s.accepted o.text), s')

/-- A request for a valid name that fits, while the names of the services added before still stand
where they stood then. A service is added where none is known under its name, or the same one, and
the table does not run out of buckets. -/
structure Calm (o : NameRequest) (s : Registry W) : Prop where
  valid : ServiceManager.isValidServiceName o.text = true
  fits : o.text.length ≤ 63
  names : ∀ a ∈ s.accepted, (o.strings a.name).chars = a.text
  unlike : ∀ a ∈ s.accepted, a.text = o.text → o.adds = none ∨ o.adds = some a.binder
  few : s.manager.services.length < 2 ^ 64 - 1
  room : s.manager.mNameToService.cap_bits < 60

instance (o : NameRequest) (s : Registry W) : Decidable (Calm o s) :=
  decidable_of_iff (ServiceManager.isValidServiceName o.text = true ∧ o.text.length ≤ 63 ∧
      (∀ a ∈ s.accepted, (o.strings a.name).chars = a.text) ∧
      (∀ a ∈ s.accepted, a.text = o.text → o.adds = none ∨ o.adds = some a.binder) ∧
      s.manager.services.length < 2 ^ 64 - 1 ∧ s.manager.mNameToService.cap_bits < 60)
    ⟨fun ⟨h1, h2, h3, h4, h5, h6⟩ => ⟨h1, h2, h3, h4, h5, h6⟩,
      fun ⟨h1, h2, h3, h4, h5, h6⟩ => ⟨h1, h2, h3, h4, h5, h6⟩⟩

/-! ## The table and what was accepted -/

/-- The record at the address of a service has this binder. -/
def BinderAt (services : List BinderService) (service : Long) (binder : BitVec 64) : Prop :=
  service ≠ 0 ∧ ∃ record, services[service.toNat - 1]? = some record ∧ record.binder = binder

/-- The table as its functions see it. -/
abbrev Tabled (strings : Long → BinderString) (p : List HashMapEntry) (table : HashMapBase) :
    Prop :=
  HashMapBase.Represents (HashMapBase.stringCtor strings).hash
    (HashMapBase.stringCtor strings).equal p (ServiceManager.keyed strings table)

/-- Every entry belongs to a service that was accepted, and finds its binder. -/
structure Kept (m : ServiceManager W) (accepted : List Accepted) (p : List HashMapEntry) :
    Prop where
  table : Tabled m.strings p m.mNameToService
  callbacks : Tabled m.strings [] m.mNameToRegistrationCallback
  memory : ∀ n, m.memory n = true
  names : ∀ a ∈ accepted, (m.strings a.name).chars = a.text
  known : ∀ e ∈ p, ∃ a ∈ accepted, a.name = e.key
  listed : ∀ a ∈ accepted, ∃ e ∈ p,
    (m.strings e.key).chars = a.text ∧ BinderAt m.services e.value a.binder
  nonNull : ∀ a ∈ accepted, a.binder ≠ 0

variable {x} {m : ServiceManager W} {accepted : List Accepted} {p : List HashMapEntry}
  {E : Fault → Prop} {strings strings' : Long → BinderString} {table : HashMapBase}

/-- A table whose entries hash and compare as before stands as before. -/
theorem Tabled.moved (r : Tabled strings p table)
    (h : ∀ e ∈ p, (strings' e.key).chars = (strings e.key).chars) : Tabled strings' p table := by
  have hmem : ∀ e ∈ table.entries, (strings' e.key).chars = (strings e.key).chars :=
    fun e he => h e (r.same.mem_iff.mp he)
  obtain ⟨hshape, hbits, hlength, hplaced, hdiffer, hcount, hload⟩ := r.holds
  refine ⟨rfl, rfl, ⟨hshape, hbits, hlength, fun i chain hi e he => ?_, ?_, hcount, hload⟩, r.same⟩
  · rw [← hplaced i chain hi e he]
    have hin : e ∈ table.entries := List.mem_flatten.mpr ⟨chain, List.mem_of_getElem? hi, he⟩
    exact congrArg (fun t => hash_bits (str_hash t) table.cap_bits) (hmem e hin)
  · refine List.Pairwise.imp_of_mem (fun {a b} ha hb hne => ?_) hdiffer
    have hsame := congrArg₂ (fun t u : List UInt8 => t == u) (hmem a ha) (hmem b hb)
    exact hsame.trans hne

theorem Tabled.keyed {t : HashMapBase} (r : HashMapBase.Represents
    (HashMapBase.stringCtor strings).hash (HashMapBase.stringCtor strings).equal p t) :
    Tabled strings p t := by
  have hsame : ServiceManager.keyed strings t = t := by
    unfold ServiceManager.keyed
    rw [← r.hash_eq, ← r.equal_eq]
  unfold Tabled
  rw [hsame]
  exact r

/-- Between two requests memory changes, but not where the names are. -/
theorem Kept.moved (h : Kept m accepted p)
    (hnames : ∀ a ∈ accepted, (strings a.name).chars = a.text) :
    Kept { m with strings := strings } accepted p := by
  have hkeys : ∀ e ∈ p, (strings e.key).chars = (m.strings e.key).chars := by
    intro e he
    obtain ⟨a, ha, hkey⟩ := h.known e he
    rw [← hkey, hnames a ha, h.names a ha]
  refine ⟨h.table.moved hkeys, h.callbacks.moved (by simp), h.memory, hnames, h.known,
    fun a ha => ?_, h.nonNull⟩
  obtain ⟨e, he, htext, hbinder⟩ := h.listed a ha
  exact ⟨e, he, (hkeys e he).trans htext, hbinder⟩

theorem equal_iff {k j : Long} : (HashMapBase.stringCtor strings).equal k j = true ↔
    (strings k).chars = (strings j).chars := beq_iff_eq

/-! ## Lookups -/

/-- The entry under a name has the binder that was accepted last under it. -/
theorem Kept.latest_of_mem (h : Kept m accepted p) {e : HashMapEntry} (he : e ∈ p) :
    BinderAt m.services e.value (latest accepted (m.strings e.key).chars) ∧
      latest accepted (m.strings e.key).chars ≠ 0 := by
  obtain ⟨a, ha, hkey⟩ := h.known e he
  have htext : a.text = (m.strings e.key).chars := by rw [← h.names a ha, hkey]
  obtain ⟨b, hfind⟩ : ∃ b, accepted.find? (fun a => a.text = (m.strings e.key).chars) = some b := by
    rw [← Option.isSome_iff_exists, List.find?_isSome]
    exact ⟨a, ha, by simpa using htext⟩
  have hb : b ∈ accepted := List.mem_of_find?_eq_some hfind
  have hbtext : b.text = (m.strings e.key).chars := by simpa using List.find?_some hfind
  obtain ⟨d, hd, hdtext, hbinder⟩ := h.listed b hb
  have hlaws := HashMapBase.stringCtor_laws m.strings
  have hsame : d = e := (h.table.differ hlaws).eq_of_same hlaws.lawful hd he
    (beq_iff_eq.mpr (hdtext.trans hbtext))
  unfold latest
  rw [hfind, ← hsame]
  exact ⟨hbinder, h.nonNull b hb⟩

/-- Where no entry has a name, nothing was accepted under it. -/
theorem Kept.latest_of_absent (h : Kept m accepted p) {text : List UInt8}
    (habsent : ∀ e ∈ p, (m.strings e.key).chars ≠ text) : latest accepted text = 0 := by
  have hnone : accepted.find? (fun a => a.text = text) = none := by
    rw [List.find?_eq_none]
    intro a ha
    obtain ⟨e, he, htext, -⟩ := h.listed a ha
    simpa [← htext] using habsent e he
  unfold latest
  rw [hnone]
  rfl

/-- The table was looked at: it is the one that its functions saw. -/
theorem Kept.settled (h : Kept m accepted p) :
    Kept { m with mNameToService := ServiceManager.keyed m.strings m.mNameToService } accepted p :=
  ⟨h.table, h.callbacks, h.memory, h.names, h.known, h.listed, h.nonNull⟩

/-- A promise to the client changes no binder. -/
theorem Kept.guaranteed (h : Kept m accepted p) (i : Nat) :
    Kept { m with services :=
      m.services.modify i fun record => { record with guaranteeClient := true } } accepted p := by
  refine ⟨h.table, h.callbacks, h.memory, h.names, h.known, fun a ha => ?_, h.nonNull⟩
  obtain ⟨e, he, htext, hne, record, hrecord, hbinder⟩ := h.listed a ha
  refine ⟨e, he, htext, hne, ?_⟩
  simp only [List.getElem?_modify, hrecord]
  split
  · exact ⟨_, rfl, hbinder⟩
  · exact ⟨_, rfl, hbinder⟩

theorem tryGetService.spec (h : Kept m accepted p) (name : Long) :
    wp (ServiceManager.tryGetService name) (fun out m' =>
      out = latest accepted (m.strings name).chars ∧ Kept m' accepted p) E m := by
  have hlaws := HashMapBase.stringCtor_laws m.strings
  unfold ServiceManager.tryGetService ServiceManager.onNames HashMap.find
  rw [wp_bind, wp_zoom, wp_bind]
  refine wp_imp (HashMapBase.find.spec h.table hlaws) ?_
  rintro found t ⟨rfl, hfound⟩
  cases hlookup : lookup HashMapEntry.key (HashMapBase.stringCtor m.strings).equal p name with
  | none =>
    rw [hlookup] at hfound
    rw [hfound]
    dsimp only [Option.map_none]
    rw [wp_pure, if_pos (by decide), wp_pure]
    refine ⟨(h.latest_of_absent fun e he htext => ?_).symm, h.settled⟩
    have hne := lookup_eq_none.mp hlookup e he
    rw [equal_iff.mpr htext] at hne
    cases hne
  | some e =>
    rw [hlookup] at hfound
    obtain ⟨he, hsame⟩ := lookup_some hlookup
    have htext : (m.strings e.key).chars = (m.strings name).chars := equal_iff.mp hsame
    obtain ⟨⟨hne, record, hrecord, hbinder⟩, hnonNull⟩ := h.latest_of_mem he
    rw [htext] at hbinder hnonNull
    rw [hfound]
    dsimp only [Option.map_some]
    rw [wp_pure, if_neg (by simp)]
    dsimp only
    rw [if_neg hne, wp_bind, ServiceManager.wp_serviceAt (by exact hrecord), hbinder, if_pos hnonNull]
    exact ⟨rfl, h.settled.guaranteed _⟩

/-! ## Additions -/

/-- A service is put into the table where none has its name. -/
theorem put.spec {t : MapState} {key value : Long}
    (r : HashMapBase.Represents (HashMapBase.stringCtor strings).hash
      (HashMapBase.stringCtor strings).equal p t.map) (hplenty : HashMapBase.Plenty t) :
    wp (HashMap.put key value) (fun _ t' => HashMapBase.Represents
      (HashMapBase.stringCtor strings).hash (HashMapBase.stringCtor strings).equal
      (if ∃ e ∈ p, (strings e.key).chars = (strings key).chars then p else ⟨key, value⟩ :: p)
      t'.map) E t := by
  have hlaws := HashMapBase.stringCtor_laws strings
  unfold HashMap.put
  rw [wp_bind]
  refine wp_imp (HashMapBase.insert.spec r hlaws (by decide)) ?_
  rintro answer t' ⟨q, hq, r'⟩
  have hr : HashMapBase.Represents (HashMapBase.stringCtor strings).hash
      (HashMapBase.stringCtor strings).equal
      (if ∃ e ∈ p, (strings e.key).chars = (strings key).chars then p else ⟨key, value⟩ :: p)
      t'.map := by
    unfold HashMapBase.Inserted at hq
    cases hlookup : lookup HashMapEntry.key (HashMapBase.stringCtor strings).equal p key with
    | some e =>
      obtain ⟨he, hsame⟩ := lookup_some hlookup
      rw [hlookup] at hq
      rw [if_pos ⟨e, he, equal_iff.mp hsame⟩, ← hq.2]
      exact r'
    | none =>
      have habsent : ¬∃ e ∈ p, (strings e.key).chars = (strings key).chars := by
        rintro ⟨e, he, htext⟩
        have hne := lookup_eq_none.mp hlookup e he
        rw [equal_iff.mpr htext] at hne
        cases hne
      rw [hlookup] at hq
      rw [if_neg habsent]
      rcases hq with ⟨-, rfl, -⟩ | ⟨-, -, hrefused⟩
      · unfold put at r'
        rwa [erase_of_absent hlookup] at r'
      · exact absurd hrefused hplenty.not_refused
  rw [wp_ite, wp_pure, wp_pure]
  exact ⟨fun _ => hr, fun _ => hr⟩

/-- The new service, found under its name. -/
theorem Kept.added {m' : ServiceManager W} {name service : Long} {binder : BitVec 64}
    (h : Kept m accepted p) (hnonNull : binder ≠ 0)
    (hunlike : ∀ a ∈ accepted, a.text = (m.strings name).chars → a.binder = binder)
    (hstrings : m'.strings = m.strings) (hmemory : m'.memory = m.memory)
    (hservices : ∀ (i : Nat) record, m.services[i]? = some record → m'.services[i]? = some record)
    (hnew : BinderAt m'.services service binder)
    (hcallbacks : Tabled m.strings [] m'.mNameToRegistrationCallback)
    (htable : Tabled m.strings (if ∃ e ∈ p, (m.strings e.key).chars = (m.strings name).chars
      then p else ⟨name, service⟩ :: p) m'.mNameToService) :
    ∃ p', Kept m' (⟨name, (m.strings name).chars, binder⟩ :: accepted) p' := by
  have hkept : ∀ a ∈ accepted, ∃ e ∈ p,
      (m'.strings e.key).chars = a.text ∧ BinderAt m'.services e.value a.binder := by
    intro a ha
    obtain ⟨e, he, htext, hne, record, hrecord, hbinder⟩ := h.listed a ha
    exact ⟨e, he, by rw [hstrings, htext], hne, record, hservices _ _ hrecord, hbinder⟩
  refine ⟨_, by rw [hstrings]; exact htable, by rw [hstrings]; exact hcallbacks,
    by rw [hmemory]; exact h.memory, ?_, ?_, ?_, ?_⟩
  · intro a ha
    rw [hstrings]
    rcases List.mem_cons.mp ha with rfl | ha
    · rfl
    · exact h.names a ha
  · intro e he
    split at he
    · obtain ⟨a, ha, hkey⟩ := h.known e he
      exact ⟨a, List.mem_cons_of_mem _ ha, hkey⟩
    · rcases List.mem_cons.mp he with rfl | he
      · exact ⟨_, List.mem_cons_self, rfl⟩
      · obtain ⟨a, ha, hkey⟩ := h.known e he
        exact ⟨a, List.mem_cons_of_mem _ ha, hkey⟩
  · intro a ha
    split
    · rename_i hsame
      rcases List.mem_cons.mp ha with rfl | ha
      · -- the old entry has the same binder
        obtain ⟨e, he, htext⟩ := hsame
        obtain ⟨b, hb, hkey⟩ := h.known e he
        have hbtext : b.text = (m.strings name).chars := by rw [← h.names b hb, hkey, htext]
        obtain ⟨d, hd, hdtext, hdbinder⟩ := hkept b hb
        rw [hunlike b hb hbtext] at hdbinder
        exact ⟨d, hd, hdtext.trans hbtext, hdbinder⟩
      · exact hkept a ha
    · rcases List.mem_cons.mp ha with rfl | ha
      · exact ⟨_, List.mem_cons_self, by rw [hstrings], hnew⟩
      · obtain ⟨e, he, hrest⟩ := hkept a ha
        exact ⟨e, List.mem_cons_of_mem _ he, hrest⟩
  · intro a ha
    rcases List.mem_cons.mp ha with rfl | ha
    · exact hnonNull
    · exact h.nonNull a ha

theorem register.spec {name : Long} {record : BinderService} (h : Kept m accepted p)
    (hnonNull : record.binder ≠ 0)
    (hunlike : ∀ a ∈ accepted, a.text = (m.strings name).chars → a.binder = record.binder)
    (hfew : m.services.length < 2 ^ 64 - 1) (hroom : m.mNameToService.cap_bits < 60) :
    wp (ServiceManager.register x name record) (fun status m' => status = STATUS_OK ∧
      ∃ p', Kept m' (⟨name, (m.strings name).chars, record.binder⟩ :: accepted) p') E m := by
  have hlaws := HashMapBase.stringCtor_laws m.strings
  have haddress : (BitVec.ofNat 64 (m.services.length + 1)).toNat = m.services.length + 1 := by
    rw [BitVec.toNat_ofNat]
    exact Nat.mod_eq_of_lt (by omega)
  have hnew : BinderAt (m.services ++ [record]) (BitVec.ofNat 64 (m.services.length + 1))
      record.binder := by
    refine ⟨fun hzero => ?_, record, ?_, rfl⟩
    · rw [hzero] at haddress
      simp at haddress
    · rw [haddress, Nat.add_sub_cancel]
      simp
  unfold ServiceManager.register ServiceManager.onNames ServiceManager.onCallbacks HashMap.find
  rw [wp_bind, ServiceManager.wp_newService (h.memory _), wp_bind, wp_zoom]
  refine wp_imp (put.spec h.table ⟨h.memory, hroom⟩) fun status t htable => ?_
  rw [wp_bind, wp_zoom, wp_bind]
  refine wp_imp (HashMapBase.find.spec h.callbacks hlaws) ?_
  rintro found t' ⟨rfl, hfound⟩
  have hnone : found = none := hfound
  rw [hnone]
  dsimp only
  rw [wp_pure]
  dsimp only [Option.getD_none]
  rw [if_neg (by simp), wp_pure]
  refine ⟨rfl, h.added hnonNull hunlike rfl rfl (fun i old hold => ?_) hnew h.callbacks
    (.keyed htable)⟩
  rw [List.getElem?_append_left (List.getElem?_eq_some_iff.mp hold).1]
  exact hold

theorem Kept.elsewhere (h : Kept m accepted p) (w : W) : Kept { m with world := w } accepted p :=
  ⟨h.table, h.callbacks, h.memory, h.names, h.known, h.listed, h.nonNull⟩

/-- What is refused changes nothing, and what is accepted comes first. -/
theorem addService.spec {name : Long} {binder : BitVec 64} (allowIsolated : Bool)
    (dumpPriority : BitVec 32) (h : Kept m accepted p)
    (hunlike : binder ≠ 0 → ∀ a ∈ accepted, a.text = (m.strings name).chars → a.binder = binder)
    (hfew : m.services.length < 2 ^ 64 - 1) (hroom : m.mNameToService.cap_bits < 60) :
    wp (ServiceManager.addService x name binder allowIsolated dumpPriority) (fun status m' =>
      ∃ p', Kept m' ((if status = STATUS_OK then [⟨name, (m.strings name).chars, binder⟩] else []) ++
        accepted) p') (fun _ => True) m := by
  have hrefused : ∀ status, status ≠ STATUS_OK → ∀ w, ∃ p', Kept { m with world := w }
      ((if status = STATUS_OK then [⟨name, (m.strings name).chars, binder⟩] else []) ++ accepted)
      p' := fun status hne w => ⟨p, by rw [if_neg hne]; exact h.elsewhere w⟩
  unfold ServiceManager.addService ServiceManager.onWorld
  rw [wp_bind, wp_zoom]
  refine wp_of_all (fun callingPid w => ?_) fun _ => trivial
  rw [wp_ite, wp_pure]
  refine ⟨fun _ => hrefused _ (by decide) w, fun hnonNull => ?_⟩
  rw [wp_bind, ServiceManager.wp_stringAt, wp_ite, wp_pure]
  refine ⟨fun _ => hrefused _ (by decide) w, fun _ => ?_⟩
  rw [wp_bind, wp_zoom]
  refine wp_of_all (fun ok w' => ?_) fun _ => trivial
  rw [wp_ite, wp_pure]
  refine ⟨fun _ => hrefused _ (by decide) w', fun _ => ?_⟩
  refine wp_imp (register.spec (h.elsewhere w') hnonNull (hunlike hnonNull) hfew hroom) ?_
  rintro status m' ⟨rfl, hkept⟩
  exact hkept

/-! ## Runs -/

/-- A lookup, while the names are where they were. -/
theorem step.looks {o : NameRequest} {s : Registry W} (h : Kept s.manager s.accepted p)
    (hnames : ∀ a ∈ s.accepted, (o.strings a.name).chars = a.text)
    (hcall : o.call = .getService ∨ o.call = .checkService) :
    wp (step x o) (fun answer s' => answer = (STATUS_OK, latest s.accepted o.text) ∧
      Kept s'.manager s'.accepted p) E s := by
  have hlook := tryGetService.spec (E := E) (h.moved hnames) o.name
  unfold step ServiceManager.handle
  rw [wp_bind, wp_zoom, wp_bind, wp_modify]
  rcases hcall with hcall | hcall
  all_goals
    rw [hcall]
    dsimp only
    simp only [ServiceManager.getService, ServiceManager.checkService]
    rw [wp_bind]
    refine wp_imp hlook ?_
    rintro out m' ⟨rfl, hkept⟩
    rw [wp_pure, wp_bind, wp_modify, wp_pure]
    unfold acceptedBy
    rw [hcall]
    exact ⟨rfl, hkept⟩

/-- What the manager keeps, a request keeps. -/
theorem step.keeps {o : NameRequest} {s : Registry W} (h : Kept s.manager s.accepted p)
    (hcalm : Calm o s) : wp (step x o) (fun _ s' => ∃ p', Kept s'.manager s'.accepted p')
      (fun _ => True) s := by
  cases hcall : o.call with
  | addService binder allowIsolated dumpPriority =>
    unfold step ServiceManager.handle
    rw [wp_bind, wp_zoom, wp_bind, wp_modify, hcall]
    dsimp only
    have hunlike : binder ≠ 0 → ∀ a ∈ s.accepted, a.text = o.text → a.binder = binder := by
      intro hnonNull a ha htext
      have hadds := hcalm.unlike a ha htext
      simp only [NameRequest.adds, hcall, if_neg hnonNull, Option.some.injEq, reduceCtorEq,
        false_or] at hadds
      exact hadds.symm
    rw [wp_bind]
    refine wp_imp (addService.spec allowIsolated dumpPriority (h.moved hcalm.names) hunlike
      hcalm.few hcalm.room) fun status m' hkept => ?_
    rw [wp_pure, wp_bind, wp_modify, wp_pure]
    unfold acceptedBy
    rw [hcall]
    exact hkept
  | getService =>
    exact wp_imp (step.looks h hcalm.names (.inl hcall)) fun _ _ ⟨_, hkept⟩ => ⟨p, hkept⟩
  | checkService =>
    exact wp_imp (step.looks h hcalm.names (.inr hcall)) fun _ _ ⟨_, hkept⟩ => ⟨p, hkept⟩

theorem kept_ctor (strings : Long → BinderString) {memory : Nat → Bool} (world : W)
    (hmemory : ∀ n, memory n = true) : Kept (ServiceManager.ctor strings memory world) [] [] where
  table := ⟨rfl, rfl, HashMapBase.holds_of_empty rfl rfl rfl rfl, .refl _⟩
  callbacks := ⟨rfl, rfl, HashMapBase.holds_of_empty rfl rfl rfl rfl, .refl _⟩
  memory := hmemory
  names := by simp
  known := by simp
  listed := by simp
  nonNull := by simp

/-- In a run of requests that are all calm, every lookup returns the binder that was added last
under its name, or NULL. -/
theorem the_latest_service_is_found (x : ServiceCalls W) (strings : Long → BinderString)
    (memory : Nat → Bool) (world : W) (hmemory : ∀ n, memory n = true)
    (requests : List NameRequest)
    (hcalm : Allowed (step x) Calm requests ⟨ServiceManager.ctor strings memory world, []⟩) :
    Always (step x) FindsLatest requests ⟨ServiceManager.ctor strings memory world, []⟩ := by
  refine always_of_inv (fun s => ∃ p, Kept s.manager s.accepted p) ?_ ?_
    ⟨[], kept_ctor strings world hmemory⟩ hcalm
  · rintro o s ⟨p, h⟩ hcalm hcall
    obtain ⟨answer, s', hrun, rfl, -⟩ := wp_never_iff.mp (step.looks h hcalm.names hcall)
    exact ⟨s', hrun⟩
  · rintro o s answer s' ⟨p, h⟩ hcalm hrun
    exact (step.keeps h hcalm).of_ok hrun

/-- A process whose binders are all local. -/
def localBinders : ServiceCalls Unit where
  getCallingPid := pure 1
  remoteBinder := fun _ => pure 0
  linkToDeath := fun _ => pure STATUS_OK
  onRegistration := fun _ _ _ => pure ()

/-- The record of a name with these letters. -/
def named (letters : List UInt8) : BinderString :=
  BinderString.init ⟨List.replicate 64 0, rfl, 0, 0⟩ (some letters)

/-- A request for `foo` whose name stands at the address 1. -/
def forFoo (call : NameCall) : NameRequest := ⟨call, 1, fun _ => named [102, 111, 111]⟩

def emptyRegistry : Registry Unit :=
  ⟨ServiceManager.ctor (fun _ => named [102, 111, 111]) (fun _ => true) (), []⟩

theorem foo_is_found :
    Always (step localBinders) FindsLatest
      [forFoo (.addService 7 false 0), forFoo .getService, forFoo .checkService] emptyRegistry :=
  the_latest_service_is_found localBinders _ _ () (fun _ => rfl) _ (by decide +kernel)

/-- A service is added a second time under its name, and the old one is still found. -/
theorem a_restarted_service_is_not_found :
    wp (do
        let first ← step localBinders (forFoo (.addService 7 false 0))
        let second ← step localBinders (forFoo (.addService 8 false 0))
        let found ← step localBinders (forFoo .getService)
        pure (first, second, found))
      (fun answers s => answers = ((STATUS_OK, 0), (STATUS_OK, 0), (STATUS_OK, 7)) ∧
        latest s.accepted [102, 111, 111] = 8) never emptyRegistry := by
  decide +kernel

end Registry

end system_binder
