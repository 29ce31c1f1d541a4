-- The objects attached to a binder. A manager keeps the addresses of its entries in a hash map, and
-- an entry is a local of the call that attaches it: it ends with that call.
import SystemBinder.HashMapErase

open prog finite_map

namespace system_binder

/-- `ObjectEntry`. `func` is the address of the cleanup function, 0 for NULL. -/
structure ObjectEntry where
  object : Long
  cleanupCookie : Long
  func : Long
deriving DecidableEq, Repr

/-- `ObjectManager`, with the entries that are alive on the stack: `address n` is where the entry of
attach `n` stands. -/
structure ObjectManager where
  mObjects : MapState
  locals : List (Long × ObjectEntry)
  address : Nat → Long
  attaches : Nat

namespace ObjectManager

/-! ## Reaching the state -/

def onObjects {α : Type} (m : Prog MapState Fault α) : Prog ObjectManager Fault α :=
  zoom mObjects (fun map this => { this with mObjects := map }) m

/-- The entry of an attach that begins, and its address. -/
def enter (e : ObjectEntry) : Prog ObjectManager Fault Long := fun this =>
  .ok (this.address this.attaches,
    { this with
      locals := (this.address this.attaches, e) :: this.locals
      attaches := this.attaches + 1 })

/-- The attach returns, and its entry is no more. -/
def leave : Prog ObjectManager Fault Unit := fun this =>
  .ok ((), { this with locals := this.locals.tail })

/-- `*pEntry`. There is nothing to be read where no entry is alive. -/
def load (pEntry : Long) : Prog ObjectManager Fault ObjectEntry := fun this =>
  match this.locals.find? fun e => e.1 == pEntry with
  | some e => .ok (e.2, this)
  | none => .error .loadOutside

/-- `mObjects.find` into a pointer that is NULL before. -/
def lookUp (objectID : Long) : Prog ObjectManager Fault Long := do
  let (_, pEntry) ← onObjects (HashMap.find objectID)
  pure (pEntry.getD 0)

/-! ## The functions of a manager -/

/-- `ObjectManager_ctor` -/
def ctor (memory : Nat → Bool) (address : Nat → Long) : ObjectManager :=
  ⟨⟨HashMapBase.ctor, memory, 0⟩, [], address, 0⟩

/-- `ObjectManager_attach` -/
def attach (objectID object cleanupCookie func : Long) : Prog ObjectManager Fault Long := do
  let e ← enter ⟨object, cleanupCookie, func⟩
  let pEntry ← lookUp objectID
  let result ← if pEntry ≠ 0 then do
      let entry ← load pEntry
      pure entry.object
    else do
      let _ ← onObjects (HashMap.insert objectID e)
      pure 0
  leave
  pure result

/-- `ObjectManager_find` -/
def find (objectID : Long) : Prog ObjectManager Fault Long := do
  let pEntry ← lookUp objectID
  if pEntry = 0 then pure 0
  else do
    let entry ← load pEntry
    pure entry.object

/-- `ObjectManager_detach` -/
def detach (objectID : Long) : Prog ObjectManager Fault Long := do
  let pEntry ← lookUp objectID
  if pEntry = 0 then pure 0
  else do
    let entry ← load pEntry
    let _ ← onObjects (HashMap.erase objectID)
    pure entry.object

/-- `ObjectEntry_Callback`, with the cleanups that it is called after: an ID with its entry. -/
def entryCallback (cleaned : List (Long × ObjectEntry)) (e : HashMapEntry) :
    Prog ObjectManager Fault (List (Long × ObjectEntry)) := do
  let entry ← load e.value
  if entry.func ≠ 0 then pure (cleaned ++ [(e.key, entry)]) else pure cleaned

/-- `ObjectManager_kill`: the cleanups that it runs, in order. -/
def kill : Prog ObjectManager Fault (List (Long × ObjectEntry)) := do
  let entries ← onObjects HashMapBase.iterator
  let cleaned ← entries.foldlM entryCallback []
  onObjects HashMapBase.clear
  pure cleaned

/-! ## What a manager is for -/

inductive ObjectCall
  | attach (objectID object cleanupCookie func : Long)
  | find (objectID : Long)
  | detach (objectID : Long)
  | kill
deriving DecidableEq, Repr

/-- What a call returns, and the cleanups that it runs. -/
structure ObjectAnswer where
  result : Long
  cleaned : List (Long × ObjectEntry)
deriving DecidableEq, Repr

def runCall : ObjectCall → Prog ObjectManager Fault ObjectAnswer
  | .attach objectID object cleanupCookie func => do
    let result ← attach objectID object cleanupCookie func
    pure ⟨result, []⟩
  | .find objectID => do
    let result ← find objectID
    pure ⟨result, []⟩
  | .detach objectID => do
    let result ← detach objectID
    pure ⟨result, []⟩
  | .kill => do
    let cleaned ← kill
    pure ⟨0, cleaned⟩

/-- The entry under an ID. -/
def entryOf (attached : List (Long × ObjectEntry)) (objectID : Long) : Option ObjectEntry :=
  (attached.find? fun e => e.1 == objectID).map Prod.snd

/-- What a call answers on a map from IDs to entries, and the map after it. -/
def Answers (attached : List (Long × ObjectEntry)) :
    ObjectCall → ObjectAnswer → List (Long × ObjectEntry) → Prop
  | .attach objectID object cleanupCookie func, answer, after => answer.cleaned = [] ∧
    match entryOf attached objectID with
    | some e => answer.result = e.object ∧ after = attached
    | none => answer.result = 0 ∧
      after = (objectID, ⟨object, cleanupCookie, func⟩) :: attached
  | .find objectID, answer, after => answer.cleaned = [] ∧ after = attached ∧
    answer.result = ((entryOf attached objectID).map ObjectEntry.object).getD 0
  | .detach objectID, answer, after => answer.cleaned = [] ∧
    after = (attached.filter fun e => e.1 != objectID) ∧
    answer.result = ((entryOf attached objectID).map ObjectEntry.object).getD 0
  | .kill, answer, after =>
    answer.cleaned.Perm (attached.filter fun e => e.2.func != 0) ∧ after = []

/-- Along the calls, as long as the allocations succeed, the manager answers as a map that starts
as `attached`. -/
def Behaves : List ObjectCall → List (Long × ObjectEntry) → ObjectManager → Prop
  | [], _, _ => True
  | call :: rest, attached, this => HashMapBase.Plenty this.mObjects →
    ∃ answer this' after, runCall call this = .ok (answer, this') ∧
      Answers attached call answer after ∧ Behaves rest after this'

/-! ## Where no entry is read -/

/-- No call of the run meets an ID that was attached, or an entry at all for a kill. `ids` are
those that are attached. -/
def NeverMeets : List ObjectCall → List Long → Prop
  | [], _ => True
  | .attach objectID _ _ _ :: rest, ids => objectID ∉ ids ∧ NeverMeets rest (objectID :: ids)
  | .find objectID :: rest, ids => objectID ∉ ids ∧ NeverMeets rest ids
  | .detach objectID :: rest, ids => objectID ∉ ids ∧ NeverMeets rest ids
  | .kill :: rest, ids => ids = [] ∧ NeverMeets rest ids

/-- The hash map has the IDs that are attached. -/
def Lists (this : ObjectManager) (ids : List Long) : Prop :=
  ∃ p, HashMapBase.Represents HashMapBase.ctor.hash HashMapBase.ctor.equal p this.mObjects.map ∧
    p.map HashMapEntry.key = ids

variable {this : ObjectManager} {ids : List Long} {attached : List (Long × ObjectEntry)}
  {objectID : Long} {E : Fault → Prop}

theorem entryOf_none (h : objectID ∉ attached.map Prod.fst) : entryOf attached objectID = none := by
  unfold entryOf
  rw [Option.map_eq_none_iff, List.find?_eq_none]
  intro e he hsame
  exact h (List.mem_map.mpr ⟨e, he, by simpa using hsame⟩)

theorem valueAt_none {p : List HashMapEntry} (h : objectID ∉ p.map HashMapEntry.key) :
    HashMap.valueAt HashMapBase.ctor.equal p objectID = none := by
  unfold HashMap.valueAt
  rw [Option.map_eq_none_iff, lookup_eq_none]
  intro e he
  have hne : e.key ≠ objectID := fun hsame => h (List.mem_map.mpr ⟨e, he, hsame⟩)
  simpa [HashMapBase.ctor] using hne

/-- Nothing is found under an ID that is not there, and nothing changes. -/
theorem lookUp.spec (h : Lists this ids) (hnew : objectID ∉ ids) :
    wp (lookUp objectID) (fun pEntry this' => pEntry = 0 ∧ this' = this) E this := by
  obtain ⟨p, r, rfl⟩ := h
  unfold lookUp onObjects
  rw [wp_bind, wp_zoom]
  refine wp_imp (HashMap.find.spec r HashMapBase.ctor_laws) ?_
  rintro a s' ⟨rfl, rfl⟩
  rw [valueAt_none hnew]
  exact ⟨rfl, rfl⟩

/-- Under a new ID an attach stores the address of its entry, and returns NULL. -/
theorem attach.spec {object cleanupCookie func : Long} (h : Lists this ids) (hnew : objectID ∉ ids)
    (hplenty : HashMapBase.Plenty this.mObjects) :
    wp (attach objectID object cleanupCookie func)
      (fun result this' => result = 0 ∧ Lists this' (objectID :: ids)) E this := by
  obtain ⟨p, r, rfl⟩ := h
  unfold attach
  rw [wp_bind]
  -- the entry is alive from here on
  have hlists : Lists { this with
      locals := (this.address this.attaches, ⟨object, cleanupCookie, func⟩) :: this.locals
      attaches := this.attaches + 1 } (p.map HashMapEntry.key) := ⟨p, r, rfl⟩
  show wp (lookUp objectID >>= _) _ _ _
  rw [wp_bind]
  refine wp_imp (lookUp.spec hlists hnew) ?_
  rintro pEntry this' ⟨rfl, rfl⟩
  rw [if_neg (by simp), wp_bind]
  unfold onObjects
  rw [wp_zoom]
  refine wp_imp (HashMap.put.spec r HashMapBase.ctor_laws) ?_
  rintro status s' ⟨q, r', -, hfree⟩
  rcases hfree (valueAt_none hnew) with ⟨-, rfl⟩ | ⟨-, -, hno⟩
  · exact ⟨rfl, _, r', rfl⟩
  · exact absurd hplenty hno

theorem find.spec (h : Lists this ids) (hnew : objectID ∉ ids) :
    wp (find objectID) (fun result this' => result = 0 ∧ this' = this) E this := by
  unfold find
  rw [wp_bind]
  refine wp_imp (lookUp.spec h hnew) ?_
  rintro pEntry this' ⟨rfl, rfl⟩
  exact ⟨rfl, rfl⟩

theorem detach.spec (h : Lists this ids) (hnew : objectID ∉ ids) :
    wp (detach objectID) (fun result this' => result = 0 ∧ this' = this) E this := by
  unfold detach
  rw [wp_bind]
  refine wp_imp (lookUp.spec h hnew) ?_
  rintro pEntry this' ⟨rfl, rfl⟩
  exact ⟨rfl, rfl⟩

theorem kill.spec (h : Lists this []) :
    wp kill (fun cleaned this' => cleaned = [] ∧ Lists this' []) E this := by
  obtain ⟨p, r, hnone⟩ := h
  have hp : p = [] := List.map_eq_nil_iff.mp hnone
  subst hp
  unfold kill onObjects
  rw [wp_bind, wp_zoom]
  refine wp_imp (HashMapBase.iterator.spec r.holds) ?_
  rintro entries s' ⟨rfl, rfl⟩
  rw [r.same.eq_nil, List.foldlM_nil, wp_bind, wp_pure, wp_bind, wp_zoom]
  refine wp_imp (HashMapBase.clear.spec r HashMapBase.ctor_laws) fun _ s'' r' => ?_
  exact ⟨rfl, [], r', rfl⟩

/-- One call. -/
theorem runCall.behaves {call : ObjectCall} {rest : List ObjectCall}
    (h : Lists this (attached.map Prod.fst)) (hplenty : HashMapBase.Plenty this.mObjects)
    (hmeets : NeverMeets (call :: rest) (attached.map Prod.fst)) :
    wp (runCall call) (fun answer this' => ∃ after, Answers attached call answer after ∧
      Lists this' (after.map Prod.fst) ∧ NeverMeets rest (after.map Prod.fst)) E this := by
  unfold runCall
  cases call with
  | attach objectID object cleanupCookie func =>
    obtain ⟨hnew, hrest⟩ := hmeets
    dsimp only
    rw [wp_bind]
    refine wp_imp (attach.spec h hnew hplenty) ?_
    rintro result this' ⟨rfl, h'⟩
    refine ⟨(objectID, ⟨object, cleanupCookie, func⟩) :: attached, ⟨rfl, ?_⟩, h', hrest⟩
    rw [entryOf_none hnew]
    exact ⟨rfl, rfl⟩
  | find objectID =>
    obtain ⟨hnew, hrest⟩ := hmeets
    dsimp only
    rw [wp_bind]
    refine wp_imp (find.spec h hnew) ?_
    rintro result this' ⟨rfl, rfl⟩
    refine ⟨attached, ⟨rfl, rfl, ?_⟩, h, hrest⟩
    rw [entryOf_none hnew]
    rfl
  | detach objectID =>
    obtain ⟨hnew, hrest⟩ := hmeets
    have hsame : (attached.filter fun e => e.1 != objectID) = attached := by
      rw [List.filter_eq_self]
      intro e he
      have hne : e.1 ≠ objectID := fun hsame => hnew (List.mem_map.mpr ⟨e, he, hsame⟩)
      simpa using hne
    dsimp only
    rw [wp_bind]
    refine wp_imp (detach.spec h hnew) ?_
    rintro result this' ⟨rfl, rfl⟩
    refine ⟨attached, ⟨rfl, hsame.symm, ?_⟩, h, hrest⟩
    rw [entryOf_none hnew]
    rfl
  | kill =>
    obtain ⟨hnone, hrest⟩ := hmeets
    have hattached : attached = [] := List.map_eq_nil_iff.mp hnone
    subst hattached
    dsimp only
    rw [wp_bind]
    refine wp_imp (kill.spec h) ?_
    rintro cleaned this' ⟨rfl, h'⟩
    exact ⟨[], ⟨.refl _, rfl⟩, h', hrest⟩

theorem behaves_of_lists {calls : List ObjectCall} (h : Lists this (attached.map Prod.fst))
    (hmeets : NeverMeets calls (attached.map Prod.fst)) : Behaves calls attached this := by
  induction calls generalizing attached this with
  | nil => trivial
  | cons call rest ih =>
    intro hplenty
    obtain ⟨answer, this', hrun, after, hanswer, h', hrest⟩ :=
      wp_never_iff.mp (runCall.behaves h hplenty hmeets)
    exact ⟨answer, this', after, hrun, hanswer, ih h' hrest⟩

/-- A new manager answers as a map from IDs to entries along every run whose calls meet no entry:
an entry ends with the attach that stores its address. -/
theorem a_manager_is_a_map_until_an_entry_is_met (memory : Nat → Bool) (address : Nat → Long)
    (calls : List ObjectCall) (hmeets : NeverMeets calls []) :
    Behaves calls [] (ctor memory address) :=
  behaves_of_lists ⟨[], ⟨rfl, rfl, HashMapBase.holds_of_empty rfl rfl rfl rfl, .refl _⟩, rfl⟩ hmeets

theorem a_manager_is_a_map_until_an_entry_is_met_by_another_find :
    Behaves [.kill, .attach 1 5 6 7, .find 2, .detach 3, .attach 4 8 0 0] []
      (ctor (fun _ => true) fun _ => 0x7ff0) :=
  a_manager_is_a_map_until_an_entry_is_met (fun _ => true) (fun _ => 0x7ff0)
    [.kill, .attach 1 5 6 7, .find 2, .detach 3, .attach 4 8 0 0] (by simp [NeverMeets])

/-- What was attached is not found: its entry is gone. -/
theorem an_attached_object_is_not_found :
    ¬Behaves [.attach 1 5 6 7, .find 1] [] (ctor (fun _ => true) fun _ => 0x7ff0) := by
  have hplenty : HashMapBase.Plenty (ctor (fun _ => true) fun _ => 0x7ff0).mObjects :=
    ⟨fun _ => rfl, by decide⟩
  obtain ⟨a, map, n, l, hattach, hbits, hdead⟩ : ∃ (a : ObjectAnswer) (map : HashMapBase) (n : Nat)
      (l : List (Long × ObjectEntry)),
      runCall (.attach 1 5 6 7) (ctor (fun _ => true) fun _ => 0x7ff0) =
        .ok (a, ⟨⟨map, fun _ => true, n⟩, l, fun _ => 0x7ff0, 1⟩) ∧ map.cap_bits < 60 ∧
      runCall (.find 1) ⟨⟨map, fun _ => true, n⟩, l, fun _ => 0x7ff0, 1⟩ = .error .loadOutside :=
    ⟨_, _, _, _, rfl, by decide, rfl⟩
  intro h
  obtain ⟨answer, this', after, hrun, -, hfind⟩ := h hplenty
  rw [hattach] at hrun
  cases hrun
  obtain ⟨answer', this'', after', hfound, -⟩ := hfind ⟨fun _ => rfl, hbits⟩
  rw [hdead] at hfound
  cases hfound

end ObjectManager

end system_binder
