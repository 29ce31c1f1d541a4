-- The server side of the service manager: how a request to add a service is read and answered,
-- and how it gets there and back.
import SystemBinder.BpServiceManager
import SystemBinder.ServiceManager

open prog memory

namespace system_binder

def EX_NULL_POINTER : BitVec 32 := -4

/-- The arguments of `addService`. -/
structure Arguments where
  in_name : BinderString
  in_service : BitVec 64
  in_allowIsolated : Bool
  in_dumpPriority : BitVec 32

/-- `BnAIDLServiceManager` of a ServiceManager: what its Parcel functions and its services call,
its address, and where `in_name` stands on the stack. -/
structure BnAIDLServiceManager (S : Type) where
  calls : Calls (ServiceManager S)
  services : ServiceCalls S
  this : BitVec 64
  nameAt : Long

namespace BnAIDLServiceManager

open Request

variable {S : Type} (n : BnAIDLServiceManager S)

/-- The arguments of `addService`, or the status with which the first of them that is not there
ends the request. -/
def readArguments : Prog (Ctx (ServiceManager S)) Fault (Except Int Arguments) := do
  let in_name ← Status.indeterminateString
  let mine ← Parcel.checkInterface n.calls n.this
  if mine = false then pure (.error STATUS_BAD_TYPE)
  else do
    let (status, in_name) ← Parcel.readString16_to (in_name.init none)
    if status ≠ STATUS_OK then pure (.error status)
    else do
      let (status, in_service) ← Parcel.readStrongBinder n.calls
      if status ≠ STATUS_OK then pure (.error status)
      else do
        let (status, in_allowIsolated) ← Parcel.readBool
        if status ≠ STATUS_OK then pure (.error status)
        else do
          let old ← indeterminate
          let (status, in_dumpPriority) ← Parcel.readInt32 old
          if status ≠ STATUS_OK then pure (.error status)
          else pure (.ok ⟨in_name, in_service.getD 0, in_allowIsolated, in_dumpPriority⟩)

/-- A Status on the stack after `Status_init`. -/
def startStatus : Prog (Ctx (ServiceManager S)) Fault Status := do
  let message ← Status.indeterminateString
  pure (Status.init ⟨EX_NONE, 0, message⟩)

/-- `ServiceManager_Vfun_addService`: what `ServiceManager_addService` returned, and the Status. -/
def Vfun_addService (arguments : Arguments) (retStatus : Status) :
    Prog (ServiceManager S) Fault (Int × Status) := do
  modify fun m => { m with strings := Function.update m.strings n.nameAt arguments.in_name }
  let err ← ServiceManager.addService n.services n.nameAt arguments.in_service
    arguments.in_allowIsolated arguments.in_dumpPriority
  pure (err, { retStatus with mErrorCode := BitVec.ofInt 32 err })

/-- The case of `addService` in `BnAIDLServiceManager_onTransact`: the status, and what
`ServiceManager_addService` returned, nothing where it was not called. -/
def addService : Prog (Request (ServiceManager S)) Fault (Int × Option Int) := do
  match ← onData n.readArguments with
  | .error status => pure (status, none)
  | .ok arguments => do
    let aidl_status ← onReply startStatus
    let (err, aidl_status) ← onWorld (n.Vfun_addService arguments aidl_status)
    let status ← onReply (aidl_status.writeToParcel n.calls.toOutside)
    pure (status, some err)

/-- `"Null Pointer"` -/
def nullPointerText : List UInt8 := [78, 117, 108, 108, 32, 80, 111, 105, 110, 116, 101, 114]

/-- The end of `BnAIDLServiceManager_onTransact`. -/
def answerNull (status : Int) : Prog (Request (ServiceManager S)) Fault Int :=
  if status = STATUS_UNEXPECTED_NULL then do
    let aidl_status ← onReply startStatus
    onReply ((aidl_status.fromExceptionCode EX_NULL_POINTER (some nullPointerText)).writeToParcel
      n.calls.toOutside)
  else pure status

/-- `BBinder_transact` with `BnAIDLServiceManager_onTransact` for `TRANSACTION_addService`. -/
def transact : Prog (Request (ServiceManager S)) Fault (Int × Option Int) := do
  onData (Parcel.setDataPosition 0)
  let (status, added) ← n.addService
  let status ← n.answerNull status
  onReply (Parcel.setDataPosition 0)
  pure (status, added)

end BnAIDLServiceManager

/-- What a reply is sent as: its data, or with `TF_STATUS_CODE` its error. -/
inductive Sent
  | data (bytes : List UInt8)
  | statusCode (err : Int)

/-- The data that `Parcel_ipcData` and `Parcel_ipcDataSize` give. -/
def Parcel.ipcData (p : Parcel) : List UInt8 :=
  window p.cells 0 (if p.mDataPos < p.mDataSize then p.mDataSize else p.mDataPos)

/-- `IPCThreadState_writeTransactionData` for a reply that lists no objects. -/
def Parcel.sent (p : Parcel) : Sent :=
  if p.mError = STATUS_OK then .data p.ipcData else .statusCode p.mError

namespace BnAIDLServiceManager

open Request

variable {S : Type} (n : BnAIDLServiceManager S)

/-- What `IPCThreadState_executeCommand` does with a `BR_TRANSACTION` for this binder, from the
parcel over its buffer on. -/
def serve (buffer : Parcel) : Prog (Request (ServiceManager S)) Fault (Sent × Option Int) := do
  modify fun r => { r with aidl_data := buffer, aidl_reply := Parcel.empty }
  let (error, added) ← n.transact
  onReply (if error < STATUS_OK then Parcel.setError error else pure ())
  let reply ← onReply thisParcel
  pure (reply.sent, added)

end BnAIDLServiceManager

/-- The two processes: the service manager with its memory, and the client. -/
structure Peers (S C : Type) where
  server : ServiceManager S
  serverHeap : Heap
  client : C

/-- The driver between them: the parcel over the buffer that it makes of the data of a request,
and where it puts the data of a reply. -/
structure Driver (S C : Type) where
  arrival : Parcel → Peers S C → Parcel
  replyAt : Nat

namespace Driver

open Request

variable {S C : Type} (d : Driver S C) (n : BnAIDLServiceManager S)

/-- Runs a function of the server on a request from the client. -/
def onServer {α : Type} (m : Parcel → Prog (Request (ServiceManager S)) Fault α) :
    Prog (Request (Peers S C)) Fault α := fun r =>
  zoom (fun r => ⟨Parcel.empty, Parcel.empty, r.world.serverHeap, r.world.server⟩)
    (fun (q : Request (ServiceManager S)) r =>
      { r with world := { r.world with server := q.world, serverHeap := q.heap } })
    (m (d.arrival r.aidl_data r.world)) r

/-- `BR_REPLY` in `IPCThreadState_waitForResponse`. -/
def receive (x : Outside (Peers S C)) : Sent → Prog (Ctx (Peers S C)) Fault Int
  | .data bytes => do
    Parcel.ipcSetDataReference x ⟨d.replyAt, bytes⟩ bytes.length ⟨d.replyAt + bytes.length, []⟩ 0
      .freeBuffer
    pure STATUS_OK
  | .statusCode err => do
    if err ≠ STATUS_OK then Parcel.setError err else pure ()
    pure err

/-- A request to add a service, to the server and back: the status that the client gets, and what
`ServiceManager_addService` returned. -/
def carry (x : Outside (Peers S C)) : Prog (Request (Peers S C)) Fault (Int × Option Int) := do
  let (sent, added) ← d.onServer n.serve
  let status ← onReply (d.receive x sent)
  pure (status, added)

/-- The client whose requests to add a service go to this server. -/
def client (p : BpAIDLServiceManager (Peers S C)) : BpAIDLServiceManager (Peers S C) :=
  { p with transact := fun code =>
      if code = TRANSACTION_addService then do
        let answer ← d.carry n p.calls.toOutside
        pure answer.1
      else p.transact code }

end Driver

end system_binder
