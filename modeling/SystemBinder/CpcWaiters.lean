-- The calls of waitForService on all CPUs, next to each other: each registers a callback at the
-- service manager, waits until it is called, takes the callback back and looks the service up.
-- What a shim does with its table is one step: calls of its functions do not overlap there.
-- Requests to the manager reach it.
import SystemBinder.CpcNotifications

open prog Std

set_option linter.unusedSectionVars false

namespace system_binder

/-- How far a call of `waitForService` is: its callback is registered, is in the table of the shim
too, or still has to be taken back there where these stand; or it has returned. -/
inductive WaitStage (B : Type)
  | registered
  | waits
  | drops (waiters : List Nat)
  | done (result : Option (Endpoint B))
deriving DecidableEq, Repr

/-- A call of `waitForService`, and the `mReady` of its `Waiter`. -/
structure WaitCall (B : Type) where
  home : Nat
  name : Name
  mReady : Bool
  stage : WaitStage B

/-- The service manager and the CPUs, the table of each shim and the calls. A call, its `Waiter` and
its `RegistrationWaiter` have the same number; the other callbacks are in `C`. `delivered` says
which of the calls of `onRegistration` have come. -/
structure Waiting (B C : Type) where
  cpus : Cpus B (Nat ⊕ C)
  mNameToCallback : Nat → TreeMap Name (List (Nat × Nat))
  calls : Nat → Option (WaitCall B)
  delivered : List Nat

namespace Waiting

variable {B C : Type} [DecidableEq B] [DecidableEq C]

abbrev manager (s : Waiting B C) : CpcServiceManager B (Nat ⊕ C) := s.cpus.mTheRealServiceManager

def setManager (m : CpcServiceManager B (Nat ⊕ C)) (s : Waiting B C) : Waiting B C :=
  { s with cpus := { s.cpus with mTheRealServiceManager := m } }

def setCall (t : Nat) (call : WaitCall B) (s : Waiting B C) : Waiting B C :=
  { s with calls := Function.update s.calls t (some call) }

/-! ## A call -/

/-- The call, until the service manager has the callback. -/
def waitForService (t home : Nat) (name : Name) (s : Waiting B C) : Option (Waiting B C) :=
  if s.calls t ≠ none then none
  else if ¬isValidServiceName name then
    some (s.setCall t ⟨home, name, false, .done none⟩)
  else
    match s.manager.registerForNotifications name (some (.inl t)) with
    | (.EX_NONE, m) => some ((s.setManager m).setCall t ⟨home, name, false, .registered⟩)
    | (_, m) => some ((s.setManager m).setCall t ⟨home, name, false, .done none⟩)

/-- The end of `registerForNotifications` of the shim. -/
def pushBack (t : Nat) (call : WaitCall B) (s : Waiting B C) : Waiting B C :=
  let table := s.mNameToCallback call.home
  let table := table.insert call.name (table.getD call.name [] ++ [(t, t)])
  { s.setCall t { call with stage := .waits } with
    mNameToCallback := Function.update s.mNameToCallback call.home table }

/-- `unregisterForNotifications` of the shim takes the entries of the callback out of its table. The
source erases a name without entries after the requests, with no lock on the table. -/
def unlist (t : Nat) (call : WaitCall B) (s : Waiting B C) : Waiting B C :=
  let table := s.mNameToCallback call.home
  match table[call.name]? with
  | none => s.setCall t { call with stage := .drops [] }
  | some entries =>
    let rest := entries.filter fun entry => entry.1 ≠ t
    let table := if rest.isEmpty then table.erase call.name else table.insert call.name rest
    let waiters := (entries.filter fun entry => entry.1 = t).map (·.2)
    { s.setCall t { call with stage := .drops waiters } with
      mNameToCallback := Function.update s.mNameToCallback call.home table }

/-- What the service manager says to that is not looked at. -/
def drop (t w : Nat) (waiters : List Nat) (call : WaitCall B) (s : Waiting B C) : Waiting B C :=
  (s.setManager (s.manager.unregisterForNotifications call.name (some (.inl w))).2).setCall t
    { call with stage := .drops waiters }

/-- The next step of a call, in a process on the CPU `cpuname`. -/
def goOn (cpuname : Nat → Name) (t : Nat) (s : Waiting B C) : Option (Waiting B C) :=
  match s.calls t with
  | none => none
  | some call =>
    match call.stage with
    | .registered => some (s.pushBack t call)
    | .waits => if call.mReady = true then some (s.unlist t call) else none
    | .drops (w :: waiters) => some (s.drop t w waiters call)
    | .drops [] =>
      let result := CpcServiceManagerShim.getService (cpuname call.home) call.name s.cpus
      some (s.setCall t { call with stage := .done result })
    | .done _ => none

/-! ## The system -/

/-- `onRegistration` comes to a callback, and to a `Waiter` with it. -/
def notified (s : Waiting B C) : Name × (Nat ⊕ C) → Waiting B C
  | (_, .inl t) =>
    match s.calls t with
    | some call => s.setCall t { call with mReady := true }
    | none => s
  | (_, .inr _) => s

/-- The calls of `onRegistration` come in any order. -/
def deliver (i : Nat) (s : Waiting B C) : Option (Waiting B C) :=
  if i ∈ s.delivered then none
  else s.manager.called[i]?.map fun entry =>
    { s with delivered := i :: s.delivered }.notified entry

/-- What happens at the service manager, with callbacks that are no waiters. -/
def other : CpcServiceManager.Event B C → CpcServiceManager.Event B (Nat ⊕ C)
  | .addService name binder => .addService name binder
  | .registerForNotifications name callback => .registerForNotifications name (callback.map .inr)
  | .unregisterForNotifications name callback =>
    .unregisterForNotifications name (callback.map .inr)
  | .die binder => .die binder
  | .binderDied who => .binderDied who

inductive Event (B C : Type)
  | waitForService (t home : Nat) (name : Name)
  | goOn (t : Nat)
  | deliver (i : Nat)
  | addService (cpuname name : Name) (binder : B)
  | other (e : CpcServiceManager.Event B C)
deriving DecidableEq, Repr

def step (cpuname : Nat → Name) (e : Event B C) (s : Waiting B C) : Option (Waiting B C) :=
  match e with
  | .waitForService t home name => s.waitForService t home name
  | .goOn t => s.goOn cpuname t
  | .deliver i => s.deliver i
  | .addService cpu name binder =>
    some { s with cpus := (CpcServiceManagerShim.addService cpu name binder s.cpus).2 }
  | .other e => (CpcServiceManager.step (other e) s.manager).map fun m => s.setManager m

/-- Before the first call. -/
def start (dead : B → Bool) (defaults : Name → Name → Option B) : Waiting B C where
  cpus := ⟨CpcServiceManager.start _ dead, defaults⟩
  mNameToCallback := fun _ => ∅
  calls := fun _ => none
  delivered := []

end Waiting

end system_binder
