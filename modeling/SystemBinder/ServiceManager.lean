-- The native service manager: binders under names, in a hash map whose keys are the addresses of
-- String records.
import SystemBinder.HashMap

open prog

namespace system_binder

/-- The bytes before the NUL, as `strlen` and `strcmp` see them. -/
def BinderString.chars (str : BinderString) : List UInt8 := str.mData.takeWhile (· ≠ 0)

/-- `BinderService` -/
structure BinderService where
  binder : BitVec 64
  allowIsolated : Bool
  dumpPriority : BitVec 32
  hasClients : Bool
  guaranteeClient : Bool
  debugPid : BitVec 32
deriving DecidableEq, Repr

/-- What the service manager calls. `linkToDeath` is the function of the binder. -/
structure ServiceCalls (W : Type) where
  getCallingPid : Prog W Fault (BitVec 32)
  remoteBinder : BitVec 64 → Prog W Fault (BitVec 64)
  linkToDeath : BitVec 64 → Prog W Fault Int
  onRegistration : Long → BinderString → BitVec 64 → Prog W Fault Unit

/-- `ServiceManager`, with the memory that it works on: `strings` says which String record stands
at an address, and the `n`-th `BinderService` stands at the address `n`, from 1 on. -/
structure ServiceManager (W : Type) where
  mNameToService : HashMapBase
  mNameToRegistrationCallback : HashMapBase
  strings : Long → BinderString
  services : List BinderService
  memory : Nat → Bool
  requests : Nat
  world : W

namespace ServiceManager

variable {W α : Type}

/-- `ServiceManager_ctor` -/
def ctor (strings : Long → BinderString) (memory : Nat → Bool) (world : W) : ServiceManager W where
  mNameToService := HashMapBase.stringCtor strings
  mNameToRegistrationCallback := HashMapBase.stringCtor strings
  strings := strings
  services := []
  memory := memory
  requests := 0
  world := world

/-! ## Reaching the state -/

/-- A table of names: it hashes and compares what stands at its keys now. -/
def keyed (strings : Long → BinderString) (table : HashMapBase) : HashMapBase :=
  { table with
    hash := (HashMapBase.stringCtor strings).hash
    equal := (HashMapBase.stringCtor strings).equal }

/-- Runs a function of `mNameToService`. -/
def onNames (m : Prog MapState Fault α) : Prog (ServiceManager W) Fault α :=
  zoom (fun s => ⟨keyed s.strings s.mNameToService, s.memory, s.requests⟩)
    (fun t s => { s with mNameToService := t.map, requests := t.requests }) m

/-- Runs a function of `mNameToRegistrationCallback`. -/
def onCallbacks (m : Prog MapState Fault α) : Prog (ServiceManager W) Fault α :=
  zoom (fun s => ⟨keyed s.strings s.mNameToRegistrationCallback, s.memory, s.requests⟩)
    (fun t s => { s with mNameToRegistrationCallback := t.map, requests := t.requests }) m

/-- Runs a function of the rest of the process. -/
def onWorld (m : Prog W Fault α) : Prog (ServiceManager W) Fault α :=
  zoom ServiceManager.world (fun w s => { s with world := w }) m

/-- The String record at an address. -/
def stringAt (name : Long) : Prog (ServiceManager W) Fault BinderString := fun s =>
  .ok (s.strings name, s)

/-- The record at an address. -/
def serviceAt (service : Long) : Prog (ServiceManager W) Fault BinderService := fun s =>
  match s.services[service.toNat - 1]? with
  | some record => .ok (record, s)
  | none => .error .loadOutside

/-- `service->guaranteeClient = true` -/
def guarantee (service : Long) : Prog (ServiceManager W) Fault Unit := fun s =>
  .ok ((), { s with services :=
    s.services.modify (service.toNat - 1) fun record => { record with guaranteeClient := true } })

/-- `BinderService_new`. Its constructor writes through the pointer that it gets. -/
def newService (record : BinderService) : Prog (ServiceManager W) Fault Long := fun s =>
  if s.memory s.requests = true then
    .ok (BitVec.ofNat 64 (s.services.length + 1),
      { s with services := s.services ++ [record], requests := s.requests + 1 })
  else .error .nullPointer

section Access

variable {E : Fault → Prop} {m : ServiceManager W}

@[simp] theorem wp_stringAt {Q : BinderString → ServiceManager W → Prop} {name : Long} :
    wp (stringAt name) Q E m ↔ Q (m.strings name) m := Iff.rfl

theorem wp_serviceAt {Q : BinderService → ServiceManager W → Prop} {service : Long}
    {record : BinderService} (h : m.services[service.toNat - 1]? = some record) :
    wp (serviceAt service) Q E m ↔ Q record m := by
  apply wp_of_ok
  unfold serviceAt
  rw [h]

theorem wp_newService {Q : Long → ServiceManager W → Prop} {record : BinderService}
    (h : m.memory m.requests = true) :
    wp (newService record) Q E m ↔ Q (BitVec.ofNat 64 (m.services.length + 1))
      { m with services := m.services ++ [record], requests := m.requests + 1 } := by
  apply wp_of_ok
  unfold newService
  rw [if_pos h]

end Access

/-! ## The functions -/

/-- `isValidServiceName` -/
def isValidServiceName (name : List UInt8) : Bool :=
  name.length ≠ 0 ∧ name.length ≤ 127 ∧ name.all fun c =>
    c = '_'.toUInt8 || c = '-'.toUInt8 || c = '.'.toUInt8 || c = '/'.toUInt8 ||
      ('a'.toUInt8 ≤ c && c ≤ 'z'.toUInt8) || ('A'.toUInt8 ≤ c && c ≤ 'Z'.toUInt8) ||
      ('0'.toUInt8 ≤ c && c ≤ '9'.toUInt8)

/-- `ServiceManager_tryGetService`. `tryStartService` does nothing. -/
def tryGetService (name : Long) : Prog (ServiceManager W) Fault (BitVec 64) := do
  let (status, service) ← onNames (HashMap.find name)
  if status ≠ STATUS_OK then pure 0
  else
    match service with
    | none => pure 0
    | some service =>
      if service = 0 then pure 0
      else do
        let record ← serviceAt service
        if record.binder ≠ 0 then guarantee service else pure ()
        pure record.binder

/-- `ServiceManager_getService` -/
def getService (name : Long) : Prog (ServiceManager W) Fault (Int × BitVec 64) := do
  let out ← tryGetService name
  pure (STATUS_OK, out)

/-- `ServiceManager_checkService` -/
def checkService (name : Long) : Prog (ServiceManager W) Fault (Int × BitVec 64) := do
  let out ← tryGetService name
  pure (STATUS_OK, out)

variable (x : ServiceCalls W)

/-- A proxy is linked to the death of its service. -/
def watched (binder : BitVec 64) : Prog W Fault Bool := do
  let remote ← x.remoteBinder binder
  if remote ≠ 0 then do
    let status ← x.linkToDeath binder
    pure (status == STATUS_OK)
  else pure true

/-- `ServiceManager_addService` from where it overwrites the old service on. -/
def register (name : Long) (record : BinderService) : Prog (ServiceManager W) Fault Int := do
  let service ← newService record
  let _ ← onNames (HashMap.put name service)
  let (_, callback) ← onCallbacks (HashMap.find name)
  let callback := callback.getD 0
  if callback ≠ 0 then do
    let text ← stringAt name
    onWorld (x.onRegistration callback text record.binder)
  else pure ()
  pure STATUS_OK

/-- `ServiceManager_addService` -/
def addService (name : Long) (binder : BitVec 64) (allowIsolated : Bool)
    (dumpPriority : BitVec 32) : Prog (ServiceManager W) Fault Int := do
  let callingPid ← onWorld x.getCallingPid
  if binder = 0 then pure STATUS_BAD_VALUE
  else do
    let str ← stringAt name
    if isValidServiceName str.chars = false then pure STATUS_BAD_VALUE
    else do
      let ok ← onWorld (watched x binder)
      if ok = false then pure STATUS_BAD_TYPE
      else register x name ⟨binder, allowIsolated, dumpPriority, false, false, callingPid⟩

end ServiceManager

end system_binder
