-- The functions of a HashMap over the table, and what its erase does: it takes one value for
-- "not found", and finds what is not there.
import SystemBinder.HashMapLaws

open prog finite_map

namespace system_binder

namespace HashMap

open HashMapBase

variable {hash : Long → BitVec 64} {equal : Long → Long → Bool} {p : List HashMapEntry}
  {s : MapState} {E : Fault → Prop} {key value : Long}

/-! ## What the functions do -/

/-- The value of the finite map under a key. -/
def valueAt (equal : Long → Long → Bool) (p : List HashMapEntry) (key : Long) : Option Long :=
  (lookup HashMapEntry.key equal p key).map HashMapEntry.value

/-- What `HashMap_find` says of a value. -/
def answer : Option Long → Int × Option Long
  | some value => (STATUS_OK, some value)
  | none => (STATUS_NAME_NOT_FOUND, none)

theorem answer_inj {a b : Option Long} (h : answer a = answer b) : a = b := by
  cases a with
  | none =>
    cases b with
    | none => rfl
    | some _ => cases h
  | some v =>
    cases b with
    | none => cases h
    | some _ =>
      cases h
      rfl

theorem find.spec (r : Represents hash equal p s.map) (laws : HashLaws hash equal) :
    wp (find key) (fun a s' => s' = s ∧ a = answer (valueAt equal p key)) E s := by
  unfold find
  rw [wp_bind]
  refine wp_imp (HashMapBase.find.spec r laws) ?_
  rintro found s' ⟨rfl, rfl⟩
  unfold valueAt
  cases lookup HashMapEntry.key equal p key with
  | none => exact ⟨rfl, rfl⟩
  | some e => exact ⟨rfl, rfl⟩

theorem get.spec (r : Represents hash equal p s.map) (laws : HashLaws hash equal) :
    wp (get key) (fun v s' => s' = s ∧ v = (valueAt equal p key).getD 0) E s := by
  unfold get
  rw [wp_bind]
  refine wp_imp (HashMapBase.find.spec r laws) ?_
  rintro found s' ⟨rfl, rfl⟩
  unfold valueAt
  cases lookup HashMapEntry.key equal p key with
  | none => exact ⟨rfl, rfl⟩
  | some e => exact ⟨rfl, rfl⟩

/-- A put under a free key stores, where the allocator grants the entry. Under a used key it
changes nothing. -/
theorem put.spec (r : Represents hash equal p s.map) (laws : HashLaws hash equal) :
    wp (put key value) (fun status s' => ∃ q, Represents hash equal q s'.map ∧
      (valueAt equal p key ≠ none → q = p) ∧
      (valueAt equal p key = none →
        status = STATUS_OK ∧ q = ⟨key, value⟩ :: p ∨
          status = STATUS_INVALID_OPERATION ∧ q = p ∧ ¬Plenty s)) E s := by
  unfold put
  rw [wp_bind]
  refine wp_imp (HashMapBase.insert.spec r laws (by decide)) ?_
  rintro ⟨err, old_key, old_value⟩ s' ⟨q, hq, r'⟩
  unfold Inserted at hq
  unfold valueAt
  cases hl : lookup HashMapEntry.key equal p key with
  | some e =>
    rw [hl] at hq
    obtain ⟨hanswer, rfl⟩ := hq
    cases hanswer
    exact ⟨q, r', fun _ => rfl, fun h => by cases h⟩
  | none =>
    rw [hl] at hq
    rcases hq with ⟨hanswer, rfl, -⟩ | ⟨hanswer, rfl, hrefused⟩
    · cases hanswer
      have hput : finite_map.put HashMapEntry.key equal p ⟨key, value⟩ = ⟨key, value⟩ :: p := by
        unfold finite_map.put
        rw [erase_of_absent hl]
      rw [hput] at r'
      exact ⟨_, r', fun h => absurd rfl h, fun _ => .inl ⟨rfl, rfl⟩⟩
    · cases hanswer
      exact ⟨_, r', fun _ => rfl, fun _ => .inr ⟨rfl, rfl, fun h => h.not_refused hrefused⟩⟩

/-- The value that `HashMap_erase` takes for "not found". -/
def notFound : Long := BitVec.ofInt 64 STATUS_NAME_NOT_FOUND

/-- An erase fails, and leaves the map alone, where the value is `notFound`; it succeeds under
every other value and under none. -/
theorem erase.spec (r : Represents hash equal p s.map) (laws : HashLaws hash equal) :
    wp (erase key) (fun status s' =>
      if valueAt equal p key = some notFound
      then status = STATUS_NAME_NOT_FOUND ∧ s' = s
      else status = STATUS_OK ∧
        Represents hash equal (finite_map.erase HashMapEntry.key equal p key) s'.map) E s := by
  unfold erase
  rw [wp_bind]
  refine wp_imp (get.spec r laws) ?_
  rintro v s' ⟨rfl, rfl⟩
  have hsame : (valueAt equal p key).getD 0 ≠ BitVec.ofInt 64 STATUS_NAME_NOT_FOUND ↔
      valueAt equal p key ≠ some notFound := by
    unfold notFound
    cases valueAt equal p key with
    | none => simp [STATUS_NAME_NOT_FOUND]
    | some v => simp
  simp only [hsame]
  by_cases hvalue : valueAt equal p key = some notFound
  · rw [if_neg (fun h => h hvalue)]
    simp only [hvalue, if_true]
    exact ⟨rfl, rfl⟩
  · rw [if_pos hvalue, wp_bind]
    refine wp_imp (HashMapBase.delete.spec r laws) ?_
    rintro old s'' ⟨-, r'⟩
    rw [wp_pure, if_neg hvalue]
    exact ⟨rfl, r'⟩

/-! ## Runs -/

inductive HashMapCall
  | put (key value : Long)
  | insert (key value : Long)
  | erase (key : Long)
deriving DecidableEq, Repr

def runCall : HashMapCall → Prog MapState Fault Int
  | .put key value => put key value
  | .insert key value => insert key value
  | .erase key => erase key

/-- The calls one after another, with their statuses. -/
def runCalls (calls : List HashMapCall) : Prog MapState Fault (List Int) :=
  calls.mapM runCall

/-- The map is a finite map. -/
def Represented (hash : Long → BitVec 64) (equal : Long → Long → Bool) (s : MapState) : Prop :=
  ∃ p, Represents hash equal p s.map

theorem runCall.represented {call : HashMapCall} (laws : HashLaws hash equal)
    (h : Represented hash equal s) :
    wp (runCall call) (fun _ s' => Represented hash equal s') E s := by
  obtain ⟨p, r⟩ := h
  have hput : ∀ k v, wp (put k v) (fun _ s' => Represented hash equal s') E s := by
    intro k v
    refine wp_imp (put.spec r laws) ?_
    rintro status s' ⟨q, r', -⟩
    exact ⟨q, r'⟩
  cases call with
  | put k v => exact hput k v
  | insert k v => exact hput k v
  | erase k =>
    refine wp_imp (erase.spec r laws) fun status s' h => ?_
    split at h
    · rw [h.2]
      exact ⟨p, r⟩
    · exact ⟨_, h.2⟩

theorem runCalls.represented {calls : List HashMapCall} (laws : HashLaws hash equal)
    (h : Represented hash equal s) :
    wp (runCalls calls) (fun _ s' => Represented hash equal s') E s := by
  unfold runCalls
  induction calls generalizing s with
  | nil =>
    rw [List.mapM_nil, wp_pure]
    exact h
  | cons call rest ih =>
    rw [List.mapM_cons, wp_bind]
    refine wp_imp (runCall.represented laws h) fun _ s' h' => ?_
    rw [wp_bind]
    refine wp_imp (ih h') fun _ _ h'' => ?_
    rw [wp_pure]
    exact h''

/-- A new map with this hash and this equality. -/
def fresh (hash : Long → BitVec 64) (equal : Long → Long → Bool) (memory : Nat → Bool) :
    MapState := ⟨{ ctor with hash := hash, equal := equal }, memory, 0⟩

theorem fresh_represented (memory : Nat → Bool) : Represented hash equal (fresh hash equal memory) :=
  ⟨[], rfl, rfl, holds_of_empty rfl rfl rfl rfl, .refl _⟩

/-! ## What an erase promises -/

/-- The key is in the map: `HashMap_find` finds it, with this value. -/
def Has (key value : Long) (s : MapState) : Prop := find key s = .ok ((STATUS_OK, some value), s)

/-- The erase says whether the key was there, the key is gone, and every other one is as before. -/
def ErasesRight (key : Long) (s : MapState) : Prop :=
  ∃ status s', erase key s = .ok (status, s') ∧
    (status = STATUS_OK ↔ ∃ value, Has key value s) ∧
    find key s' = .ok ((STATUS_NAME_NOT_FOUND, none), s') ∧
    ∀ other, s.map.equal key other = false → ∀ value, Has other value s ↔ Has other value s'

theorem find_eq (r : Represents hash equal p s.map) (laws : HashLaws hash equal) (key : Long) :
    find key s = .ok (answer (valueAt equal p key), s) := by
  obtain ⟨a, s', hrun, rfl, rfl⟩ :
      ∃ a s', find key s = .ok (a, s') ∧ s' = s ∧ a = answer (valueAt equal p key) :=
    wp_never_iff.mp (find.spec r laws)
  exact hrun

theorem has_iff (r : Represents hash equal p s.map) (laws : HashLaws hash equal) :
    Has key value s ↔ valueAt equal p key = some value := by
  unfold Has
  rw [find_eq r laws]
  constructor
  · intro h
    have hanswer : answer (valueAt equal p key) = answer (some value) := by
      injection h with h
      exact congrArg Prod.fst h
    exact answer_inj hanswer
  · intro h
    rw [h]
    rfl

theorem valueAt_erase (laws : HashLaws hash equal) (other : Long) :
    valueAt equal (finite_map.erase HashMapEntry.key equal p key) other =
      if equal key other = true then none else valueAt equal p other := by
  unfold valueAt
  rw [lookup_erase laws.lawful]
  split <;> rfl

/-- In every map that a run of puts, insertions and erases leaves, an erase is right exactly where
the key stands there with a value other than the one for "not found": under no value it succeeds,
and under that one it fails. -/
theorem an_erase_is_right_where_another_value_stands (laws : HashLaws hash equal)
    (memory : Nat → Bool) (calls : List HashMapCall) (key : Long) :
    ∃ statuses s, runCalls calls (fresh hash equal memory) = .ok (statuses, s) ∧
      (ErasesRight key s ↔ ∃ value, Has key value s ∧ value ≠ notFound) := by
  obtain ⟨statuses, s, hrun, p, r⟩ : ∃ statuses s,
      runCalls calls (fresh hash equal memory) = .ok (statuses, s) ∧ Represented hash equal s :=
    wp_never_iff.mp (runCalls.represented laws (fresh_represented memory))
  refine ⟨statuses, s, hrun, ?_⟩
  obtain ⟨status, s', herase, hpost⟩ := wp_never_iff.mp (erase.spec r laws)
  constructor
  · rintro ⟨status', s'', herase', hstatus, -⟩
    rw [herase] at herase'
    cases herase'
    split at hpost
    · rename_i hvalue
      have hok := hstatus.mpr ⟨notFound, (has_iff r laws).mpr hvalue⟩
      rw [hpost.1] at hok
      cases hok
    · rename_i hvalue
      obtain ⟨value, hhas⟩ := hstatus.mp hpost.1
      refine ⟨value, hhas, ?_⟩
      rintro rfl
      exact hvalue ((has_iff r laws).mp hhas)
  · rintro ⟨value, hhas, hne⟩
    have hvalue := (has_iff r laws).mp hhas
    rw [if_neg (by rw [hvalue]; simpa using hne)] at hpost
    obtain ⟨rfl, r'⟩ := hpost
    refine ⟨STATUS_OK, s', herase, ⟨fun _ => ⟨value, hhas⟩, fun _ => rfl⟩, ?_, ?_⟩
    · rw [find_eq r' laws, valueAt_erase laws, if_pos (laws.lawful.refl key)]
      rfl
    · intro other hother value'
      rw [r.equal_eq] at hother
      rw [has_iff r laws, has_iff r' laws, valueAt_erase laws, if_neg (by rw [hother]; decide)]

/-- For numbers as keys. -/
theorem an_erase_is_right_where_another_value_stands_for_numbers :
    ∃ statuses s, runCalls [.put 3 0, .insert 4 notFound, .erase 3]
        (fresh ctor.hash ctor.equal fun _ => true) = .ok (statuses, s) ∧
      (ErasesRight 4 s ↔ ∃ value, Has 4 value s ∧ value ≠ notFound) :=
  an_erase_is_right_where_another_value_stands ctor_laws _ _ _

/-- An erase of a key that was never there succeeds. -/
theorem an_erase_of_nothing_succeeds :
    ¬ErasesRight 5 (fresh ctor.hash ctor.equal fun _ => true) := by
  have herase : erase 5 (fresh ctor.hash ctor.equal fun _ => true) =
      .ok (STATUS_OK, fresh ctor.hash ctor.equal fun _ => true) := rfl
  rintro ⟨status, s', hrun, hstatus, -⟩
  rw [herase] at hrun
  cases hrun
  obtain ⟨value, hhas⟩ := hstatus.mp rfl
  cases hhas

end HashMap

end system_binder
