-- The service manager that all CPUs share, and the shim in front of it on each CPU. A service is
-- known there as the CPU, a '/' and its name.
import SystemBinder.Base

open prog Std

namespace system_binder

/-! ## Names -/

abbrev Name := List Char

namespace Name

/-- `find("/")`: none is `npos`. -/
def find (name : Name) : Option Nat := name.findIdx? (· = '/')

/-- `substr(0, sep)`, the whole name for `npos`. -/
def before (name : Name) : Option Nat → Name
  | some sep => name.take sep
  | none => name

/-- `substr(sep + 1)`, the whole name for `npos`, as `npos + 1` is 0. -/
def after (name : Name) : Option Nat → Name
  | some sep => name.drop (sep + 1)
  | none => name

/-- How a service of a CPU is written. -/
def qualify (cpuname servname : Name) : Name := cpuname ++ '/' :: servname

end Name

def isValidServiceName (name : Name) : Bool :=
  name.length ≠ 0 ∧ name.length ≤ 127 ∧ name.all fun c =>
    c = '_' || c = '-' || c = '.' || c = '/' || ('a' ≤ c && c ≤ 'z') || ('A' ≤ c && c ≤ 'Z') ||
      ('0' ≤ c && c ≤ '9')

/-! ## The shared service manager -/

/-- The exception code of a `binder::Status`. -/
inductive Exception
  | EX_NONE
  | EX_ILLEGAL_ARGUMENT
  | EX_NULL_POINTER
  | EX_ILLEGAL_STATE
deriving DecidableEq, Repr

structure Service (B : Type) where
  binder : B
  cpuname : Name
deriving DecidableEq, Repr

/-- What libbinder keeps for one death recipient: which binders died, the links to each, and the
calls of `binderDied` that are still to come. -/
structure Deaths (B : Type) where
  dead : B → Bool
  links : B → Nat
  pending : B → Nat

namespace Deaths

variable {B : Type} [DecidableEq B]

/-- True for `OK`. -/
def linkToDeath (binder : B) (d : Deaths B) : Bool × Deaths B :=
  if d.dead binder then (false, d)
  else (true, { d with links := Function.update d.links binder (d.links binder + 1) })

/-- What it returns is not looked at. -/
def unlinkToDeath (binder : B) (d : Deaths B) : Deaths B :=
  if d.dead binder then d
  else { d with links := Function.update d.links binder (d.links binder - 1) }

/-- A binder dies: `binderDied` is to be called once for each link. -/
def die (binder : B) (d : Deaths B) : Deaths B where
  dead := Function.update d.dead binder true
  links := Function.update d.links binder 0
  pending := Function.update d.pending binder (d.pending binder + d.links binder)

/-- One call of `binderDied` is made. -/
def delivered (binder : B) (d : Deaths B) : Deaths B :=
  { d with pending := Function.update d.pending binder (d.pending binder - 1) }

end Deaths

/-- The fields, what libbinder keeps for it, and the calls of `onRegistration` so far. A callback
is known by its binder. -/
structure CpcServiceManager (B C : Type) where
  mNameToService : TreeMap Name (Service B)
  mNameToCallback : TreeMap Name (List C)
  deaths : Deaths B
  called : List (Name × C)

namespace CpcServiceManager

variable {B C : Type} [DecidableEq B] [DecidableEq C]

def onRegistration (name : Name) (s : CpcServiceManager B C) (cb : C) : CpcServiceManager B C :=
  { s with called := s.called ++ [(name, cb)] }

def getService (name : Name) (s : CpcServiceManager B C) : Option B :=
  s.mNameToService[name]?.map (·.binder)

def addService (name : Name) (binder : B) (s : CpcServiceManager B C) :
    Exception × CpcServiceManager B C :=
  let sep := name.find
  let cpuname := name.before sep
  let servname := name.after sep
  if ¬isValidServiceName servname then (.EX_ILLEGAL_ARGUMENT, s)
  else
    -- a failure is logged, and the binder is added all the same
    let (_, deaths) := s.deaths.linkToDeath binder
    let deaths := match s.mNameToService[servname]? with
      | some it => deaths.unlinkToDeath it.binder
      | none => deaths
    let s := { s with
      deaths := deaths
      mNameToService := s.mNameToService.insert servname { binder := binder, cpuname := cpuname } }
    match s.mNameToCallback[servname]? with
    | some callbacks => (.EX_NONE, callbacks.foldl (onRegistration servname) s)
    | none => (.EX_NONE, s)

def listServices (s : CpcServiceManager B C) : List Name :=
  s.mNameToService.toList.map fun (servname, service) => service.cpuname.qualify servname

/-- `none` is a null callback. -/
def registerForNotifications (name : Name) (callback : Option C) (s : CpcServiceManager B C) :
    Exception × CpcServiceManager B C :=
  if ¬isValidServiceName name then (.EX_ILLEGAL_ARGUMENT, s)
  else
    match callback with
    | none => (.EX_NULL_POINTER, s)
    | some callback =>
      let listeners := s.mNameToCallback.getD name [] ++ [callback]
      let s := { s with mNameToCallback := s.mNameToCallback.insert name listeners }
      if s.mNameToService.contains name then (.EX_NONE, s.onRegistration name callback)
      else (.EX_NONE, s)

/-- Only the first entry of the callback is erased, and the list when nothing is left. -/
def unregisterForNotifications (name : Name) (callback : Option C) (s : CpcServiceManager B C) :
    Exception × CpcServiceManager B C :=
  match s.mNameToCallback[name]?, callback with
  | some listeners, some callback =>
    if callback ∈ listeners then
      let listeners := listeners.erase callback
      let map := if listeners.isEmpty then s.mNameToCallback.erase name
        else s.mNameToCallback.insert name listeners
      (.EX_NONE, { s with mNameToCallback := map })
    else (.EX_ILLEGAL_STATE, s)
  | _, _ => (.EX_ILLEGAL_STATE, s)

def binderDied (who : B) (s : CpcServiceManager B C) : CpcServiceManager B C :=
  { s with mNameToService := s.mNameToService.filter fun _ service => who ≠ service.binder }

/-! ## What happens to it -/

/-- What the service manager is asked for, and what becomes of the binders. -/
inductive Event (B C : Type)
  | addService (name : Name) (binder : B)
  | registerForNotifications (name : Name) (callback : Option C)
  | unregisterForNotifications (name : Name) (callback : Option C)
  | die (binder : B)
  | binderDied (who : B)
deriving DecidableEq, Repr

/-- A binder dies once, and `binderDied` is called where a call is to come. -/
def step (e : Event B C) (s : CpcServiceManager B C) : Option (CpcServiceManager B C) :=
  match e with
  | .addService name binder => some (s.addService name binder).2
  | .registerForNotifications name callback => some (s.registerForNotifications name callback).2
  | .unregisterForNotifications name callback =>
    some (s.unregisterForNotifications name callback).2
  | .die binder =>
    if s.deaths.dead binder then none else some { s with deaths := s.deaths.die binder }
  | .binderDied who =>
    if s.deaths.pending who = 0 then none
    else some (binderDied who { s with deaths := s.deaths.delivered who })

/-- Before the first request. Which binders are dead is not for the service manager to say. -/
def start (C : Type) (dead : B → Bool) : CpcServiceManager B C where
  mNameToService := ∅
  mNameToCallback := ∅
  deaths := { dead := dead, links := fun _ => 0, pending := fun _ => 0 }
  called := []

end CpcServiceManager

/-! ## The shim of a CPU -/

/-- What a lookup resolves to: a binder of the default service manager of the CPU, or an RPC
session. -/
inductive Endpoint (B : Type)
  | binder (binder : B)
  | session (cpuname servname : Name)
deriving DecidableEq, Repr

/-- The shared service manager, and what the default service manager of each CPU knows. -/
structure Cpus (B C : Type) where
  mTheRealServiceManager : CpcServiceManager B C
  defaultServiceManager : Name → Name → Option B

namespace CpcServiceManagerShim

variable {B C : Type} [DecidableEq B] [DecidableEq C]

/-- The end of `getService`, where the CPU and the name there are known. A session to another CPU
works. -/
def resolve (mLocalCpuName name cpuname servname : Name) (cpus : Cpus B C) :
    Option (Endpoint B) :=
  if cpuname = mLocalCpuName then
    (cpus.defaultServiceManager mLocalCpuName name).map .binder
  else some (.session cpuname servname)

def getService (mLocalCpuName name : Name) (cpus : Cpus B C) : Option (Endpoint B) :=
  let sep := name.find
  match sep with
  | some _ => resolve mLocalCpuName name (name.before sep) (name.after sep) cpus
  | none =>
    let list := cpus.mTheRealServiceManager.listServices
    match list.find? fun i => name = i.after i.find with
    | some i => resolve mLocalCpuName name (i.before i.find) name cpus
    | none => none

/-- `OK` or the exception of the shared service manager is what it returns. -/
def addService (mLocalCpuName name : Name) (binder : B) (cpus : Cpus B C) :
    Except Int Exception × Cpus B C :=
  if ¬isValidServiceName name then (.error STATUS_BAD_VALUE, cpus)
  else
    let here := Function.update (cpus.defaultServiceManager mLocalCpuName) name (some binder)
    let (status, manager) :=
      cpus.mTheRealServiceManager.addService (mLocalCpuName.qualify name) binder
    (.ok status,
      { mTheRealServiceManager := manager
        defaultServiceManager := Function.update cpus.defaultServiceManager mLocalCpuName here })

end CpcServiceManagerShim

end system_binder
