-- The transactions of a thread. A command of the driver runs a handler, the handler calls out, and
-- while the thread waits for the answer the driver may send it more commands, to any depth. A knot
-- ties the functions of the thread and the code outside together.
import SystemBinder.IPCThread
import SystemBinder.ParcelDelivered
import SystemBinder.Status

open prog memory

namespace system_binder.IPCThread

variable {V α : Type} (x : Env V) (perform : Action → Prog (IPCThread V) Fault Answer) (turns : Nat)

/-! ## Parcels -/

/-- What the functions of a parcel call. -/
def outside : Outside (IPCThread V) where
  incStrong := fun obj => foreign perform (x.incStrong obj)
  decStrong := fun obj => foreign perform (x.decStrong obj)
  getStrongProxyForHandle := fun handle => foreign perform (x.getStrongProxyForHandle handle)
  close := fun fd => foreign perform (x.close fd)
  freeBuffer := freeBuffer x perform turns

/-- A function of a parcel, and the parcel that it leaves. -/
def onParcel (p : Parcel) (m : Prog (Ctx (IPCThread V)) Fault Unit) :
    Prog (IPCThread V) Fault Parcel := fun s =>
  match m ⟨p, s.heap, s⟩ with
  | .ok ((), c) => .ok (c.parcel, { c.world with heap := c.heap })
  | .error e => .error e

theorem wp_onParcel {s : IPCThread V} {E : Fault → Prop} {p : Parcel}
    {m : Prog (Ctx (IPCThread V)) Fault Unit}
    {Q : Parcel → IPCThread V → Prop} : wp (onParcel p m) Q E s ↔
      wp m (fun _ c => Q c.parcel { c.world with heap := c.heap }) E ⟨p, s.heap, s⟩ := by
  unfold wp onParcel
  rcases m ⟨p, s.heap, s⟩ with e | ⟨⟨⟩, c⟩ <;> exact Iff.rfl

/-- `Parcel_ipcSetDataReference` with what the driver delivered. -/
def refer (d : Delivery) (p : Parcel) : Prog (IPCThread V) Fault Parcel :=
  onParcel p (Parcel.ipcSetDataReference (outside x perform turns) d.data d.tr.data_size d.objects
    (d.tr.offsets_size / 8) .freeBuffer)

/-- A parcel that has nothing gives nothing up. -/
theorem freeData_empty {W : Type} {y : Outside W} {c : Ctx W} (h : c.parcel = Parcel.empty) :
    wp (Parcel.freeData y) (fun _ c' => c'.world = c.world ∧ c'.parcel = Parcel.empty)
      (fun _ => True) c := by
  have howner : c.parcel.mOwner = none := by rw [h]; rfl
  have hobjects : c.parcel.mObjectsSize = 0 := by rw [h]; rfl
  unfold Parcel.freeData Parcel.freeDataNoInit Parcel.releaseObjects Parcel.initState
  simp only [wp_bind, wp_thisParcel, howner, hobjects, Parcel.releaseDown, wp_pure]
  refine wp_imp Parcel.freeOwnData.keeps fun _ c₁ hw => ?_
  refine wp_imp Parcel.freeOwnObjects.keeps fun _ c₂ hw' => ?_
  exact ⟨hw'.trans hw, rfl⟩

/-- A new parcel takes the buffer, and nothing else happens. -/
theorem refer.fresh (d : Delivery) {s : IPCThread V} :
    wp (refer x perform turns d Parcel.empty) (fun p s' => p.address = d.tr.buffer ∧
      ∃ heap, s' = { s with heap := heap }) (fun _ => True) s := by
  unfold refer Parcel.ipcSetDataReference
  rw [wp_onParcel, wp_bind]
  refine wp_imp (freeData_empty rfl) fun _ c₁ ⟨hworld, _⟩ => ?_
  rw [wp_bind, wp_update, wp_bind]
  refine wp_imp (Parcel.checkObjects.spec rfl) fun _ c₂ hc₂ => ?_
  refine wp_imp Parcel.scanForFds.spec fun _ c₃ ⟨fds, hc₃⟩ => ?_
  have hkept : c₂.world = c₁.world ∧ c₂.parcel.address = d.data.address := by
    rw [hc₂]
    split
    · exact ⟨rfl, rfl⟩
    · exact ⟨rfl, rfl⟩
  have hend : c₃.world = c₂.world ∧ c₃.parcel.address = c₂.parcel.address := by
    rw [hc₃]
    exact ⟨rfl, rfl⟩
  refine ⟨?_, c₃.heap, ?_⟩
  · rw [hend.2, hkept.2, d.data_address]
  · rw [hend.1, hkept.1, hworld]

/-- `*(const int32_t*)(tr.data.ptr.buffer)` -/
def loadStatus (d : Delivery) : Prog (IPCThread V) Fault Int :=
  if 4 ≤ d.data.cells.length then pure (bytesWord 32 (window d.data.cells 0 4)).toInt
  else fault .loadOutside

/-- `Parcel_setError` -/
def withError (err : Int) (p : Parcel) : Parcel := { p with mError := err }

/-! ## Transactions -/

/-- `IPCThreadState_writeTransactionData` of a parcel without an error. -/
def transactionData (binderFlags handle code : BitVec 32) (data : Parcel) : TransactionData where
  target := handle.setWidth 64
  cookie := 0
  code := code
  flags := binderFlags
  sender_pid := 0
  sender_euid := 0
  data_size := max data.mDataSize data.mDataPos
  offsets_size := data.mObjectsSize * 8
  buffer := (data.mData.map Block.address).getD 0
  offsets := (data.mObjects.map Block.address).getD 0

/-- The same of a parcel with an error, which goes out of `statusBuffer`. -/
def statusData (binderFlags handle code : BitVec 32) : TransactionData where
  target := handle.setWidth 64
  cookie := 0
  code := code
  flags := binderFlags ||| TF_STATUS_CODE
  sender_pid := 0
  sender_euid := 0
  data_size := 4
  offsets_size := 0
  buffer := x.statusBuffer
  offsets := 0

/-- `IPCThreadState_writeTransactionData` for a request, without a status buffer. -/
def writeRequest (binderFlags handle code : BitVec 32) (data : Parcel) :
    Prog (IPCThread V) Fault Int :=
  if data.mError = STATUS_OK then do
    write (.BC_TRANSACTION (transactionData binderFlags handle code data))
    pure STATUS_OK
  else do
    update fun s => { s with mLastError := data.mError }
    pure data.mError

/-- `IPCThreadState_writeTransactionData` for a reply, with a status buffer. -/
def writeReply (binderFlags : BitVec 32) (data : Parcel) : Prog (IPCThread V) Fault Unit :=
  if data.mError = STATUS_OK then write (.BC_REPLY (transactionData binderFlags (-1) 0 data))
  else write (.BC_REPLY (statusData x binderFlags (-1) 0))

/-- What `waitForResponse` returns and leaves in the parcel it is given, and the commands that it
took out of `mIn` itself. -/
structure Response where
  err : Int
  reply : Option Parcel
  taken : List ReturnCommand

/-- Whether a command ends the wait. -/
inductive Verdict
  | goesOn
  | ends (err : Int) (reply : Option Parcel)

/-- The end of `IPCThreadState_waitForResponse`. -/
def finish (err : Int) (reply : Option Parcel) (taken : List ReturnCommand) :
    Prog (IPCThread V) Fault Response :=
  if err = STATUS_OK then pure ⟨err, reply, taken⟩
  else do
    update fun s => { s with mLastError := err }
    pure ⟨err, reply.map (withError err), taken⟩

/-- `BR_REPLY` in `IPCThreadState_waitForResponse` -/
def takeReply (d : Delivery) : Option Parcel → Prog (IPCThread V) Fault Verdict
  | some p =>
    if d.tr.flags &&& TF_STATUS_CODE = 0 then do
      let p ← refer x perform turns d p
      pure (.ends STATUS_OK (some p))
    else do
      let err ← loadStatus d
      freeBuffer x perform turns d.data.address
      pure (.ends err (some p))
  | none => do
    freeBuffer x perform turns d.data.address
    pure .goesOn

variable (onCommand : ReturnCommand → Prog (IPCThread V) Fault Int)

/-- The `switch` of `IPCThreadState_waitForResponse`. Every call of it passes NULL for
`acquireResult`. -/
def respond (reply : Option Parcel) : ReturnCommand → Prog (IPCThread V) Fault Verdict
  | .BR_ONEWAY_SPAM_SUSPECT | .BR_TRANSACTION_COMPLETE =>
    if reply.isNone = true then pure (.ends STATUS_OK none) else pure .goesOn
  | .BR_DEAD_REPLY => pure (.ends STATUS_DEAD_OBJECT reply)
  | .BR_FAILED_REPLY | .BR_FROZEN_REPLY => pure (.ends STATUS_FAILED_TRANSACTION reply)
  | .BR_ACQUIRE_RESULT _ => fault (.logFatal "Unexpected brACQUIRE_RESULT")
  | .BR_REPLY d => takeReply x perform turns d reply
  | cmd => do
    let err ← onCommand cmd
    if err = STATUS_OK then pure .goesOn else pure (.ends err reply)

/-- The loop of `IPCThreadState_waitForResponse`, for at most `n` turns. `mIn` has no error. -/
def waitFrom (reply : Option Parcel) : Nat → List ReturnCommand → Prog (IPCThread V) Fault Response
  | 0, _ => fault .tooDeep
  | n + 1, taken => do
    let err ← talkWithDriver x perform turns true
    if err < STATUS_OK then finish err reply taken
    else do
      let s ← get
      match s.mIn with
      | [] => waitFrom reply n taken
      | cmd :: rest => do
        update fun s => { s with mIn := rest }
        let verdict ← respond x perform turns onCommand reply cmd
        match verdict with
        | .goesOn => waitFrom reply n (taken ++ [cmd])
        | .ends err reply => finish err reply (taken ++ [cmd])

/-- `IPCThreadState_waitForResponse` -/
def waitForResponse (reply : Option Parcel) : Prog (IPCThread V) Fault Response :=
  waitFrom x perform turns onCommand reply turns []

/-- `IPCThreadState_sendReply` -/
def sendReply (reply : Parcel) (flags : BitVec 32) : Prog (IPCThread V) Fault Unit := do
  writeReply x flags reply
  let _ ← waitForResponse x perform turns onCommand none
  pure ()

/-! ## Serving a transaction -/

/-- For whom the thread works while it serves the transaction. -/
def serving (tr : TransactionData) (t : ThreadState) : ThreadState :=
  { t with
    mServingStackPointer := some x.frameAddress
    mCallingPid := tr.sender_pid
    mCallingSid := some "SECCTX_TMP"
    mCallingUid := tr.sender_euid
    mLastTransactionBinderFlags := tr.flags
    mWorkSource := kUnsetWorkSource
    mPropagateWorkSource := false }

/-- What `BR_TRANSACTION` saved is put back. -/
def restored (orig : ThreadState) (own : List Setting) (s : IPCThread V) : IPCThread V :=
  { s with
    thread := { s.thread with
      mServingStackPointer := orig.mServingStackPointer
      mCallingPid := orig.mCallingPid
      mCallingSid := orig.mCallingSid
      mCallingUid := orig.mCallingUid
      mStrictModePolicy := orig.mStrictModePolicy
      mLastTransactionBinderFlags := orig.mLastTransactionBinderFlags
      mWorkSource := orig.mWorkSource
      mPropagateWorkSource := orig.mPropagateWorkSource }
    own := own }

/-- The binder that the transaction is for, with a strong reference where it is named. -/
def acquireTarget (tr : TransactionData) : Prog (IPCThread V) Fault (Option (BitVec 64)) :=
  if tr.target ≠ 0 then do
    let acquired ← foreign perform (x.attemptIncStrong tr.target)
    pure (if acquired = true then some tr.cookie else none)
  else do
    let s ← get
    if x.mContextObject s.world = 0 then fault .nullPointer
    else pure (some (x.mContextObject s.world))

/-- The handler of the binder, with the parcel over the buffer and a fresh one for the reply. -/
def handler (tr : TransactionData) (bbinder : BitVec 64) (buffer : Parcel) :
    Foreign V (Int × Parcel) :=
  x.transact bbinder tr.code buffer Parcel.empty tr.flags

/-- The handler runs, and the reference that was taken for it goes. -/
def handle (tr : TransactionData) (buffer : Parcel) :
    Option (BitVec 64) → Prog (IPCThread V) Fault (Int × Parcel)
  | some bbinder => do
    let result ← foreign perform (handler x tr bbinder buffer)
    if tr.target ≠ 0 then foreign perform (x.decStrong bbinder) else pure ()
    pure result
  | none => pure (STATUS_UNKNOWN_TRANSACTION, Parcel.empty)

/-- A transaction that waits for it is answered. -/
def answer (tr : TransactionData) (error : Int) (reply : Parcel) :
    Prog (IPCThread V) Fault Unit :=
  if twoWay tr.flags = true then
    sendReply x perform turns onCommand
      (if error < STATUS_OK then withError error reply else reply) (tr.flags &&& TF_CLEAR_BUF)
  else pure ()

/-- The thread as it enters a transaction. -/
def begun (d : Delivery) (s : IPCThread V) : IPCThread V :=
  { s with thread := serving x d.tr s.thread, own := [] }

/-- `BR_TRANSACTION` in `IPCThreadState_executeCommand` -/
def serve (d : Delivery) : Prog (IPCThread V) Fault Unit := do
  let buffer ← refer x perform turns d Parcel.empty
  let orig ← get
  update (begun x d)
  let target ← acquireTarget x perform d.tr
  let (error, reply) ← handle x perform d.tr buffer target
  answer x perform turns onCommand d.tr error reply
  update (restored orig.thread orig.own)

/-! ## Commands -/

/-- `LOG_ASSERT` of a command whose counts are those of its object. -/
def checkObject (command : String) (refs obj : BitVec 64) : Prog (IPCThread V) Fault Unit := do
  let s ← get
  if x.refBase refs s.world = obj then pure ()
  else fault (.logFatal (command ++ ": object does not match cookie"))

/-- The `switch` of `IPCThreadState_executeCommand`. -/
def execute : ReturnCommand → Prog (IPCThread V) Fault Int
  | .BR_ERROR result => pure result
  | .BR_OK | .BR_NOOP => pure STATUS_OK
  | .BR_ACQUIRE refs obj => do
    checkObject x "BR_ACQUIRE" refs obj
    foreign perform (x.incStrong obj)
    write (.BC_ACQUIRE_DONE refs obj)
    pure STATUS_OK
  | .BR_RELEASE refs obj => do
    checkObject x "BR_RELEASE" refs obj
    update fun s => { s with mPendingStrongDerefs := s.mPendingStrongDerefs ++ [obj] }
    pure STATUS_OK
  | .BR_INCREFS refs obj => do
    foreign perform (x.incWeak refs)
    write (.BC_INCREFS_DONE refs obj)
    pure STATUS_OK
  | .BR_DECREFS refs _ => do
    update fun s => { s with mPendingWeakDerefs := s.mPendingWeakDerefs ++ [refs] }
    pure STATUS_OK
  | .BR_ATTEMPT_ACQUIRE refs obj => do
    let success ← foreign perform (x.attemptIncStrong refs)
    if success = true then checkObject x "BR_ATTEMPT_ACQUIRE" refs obj
    else fault (.logFatal "BR_ATTEMPT_ACQUIRE: object does not match cookie")
    write (.BC_ACQUIRE_RESULT success)
    pure STATUS_OK
  | .BR_TRANSACTION_SEC_CTX d | .BR_TRANSACTION d => do
    serve x perform turns onCommand d
    pure STATUS_OK
  | .BR_DEAD_BINDER proxy => do
    foreign perform (x.sendObituary proxy)
    write (.BC_DEAD_BINDER_DONE proxy)
    pure STATUS_OK
  | .BR_CLEAR_DEATH_NOTIFICATION_DONE proxy => do
    let s ← get
    foreign perform (x.decWeak (x.getWeakRefs proxy s.world))
    pure STATUS_OK
  | .BR_FINISHED => pure STATUS_TIMED_OUT
  | .BR_SPAWN_LOOPER => do
    foreign perform x.spawnPooledThread
    pure STATUS_OK
  | _ => pure STATUS_UNKNOWN_TRANSACTION

/-- After a command of the driver was executed. -/
def marked (cmd : ReturnCommand) (s : IPCThread V) : IPCThread V :=
  { s with executed := s.executed ++ [cmd] }

/-- Executes a command, which then is done. -/
def carryOut (cmd : ReturnCommand) : Prog (IPCThread V) Fault Int := do
  let result ← execute x perform turns onCommand cmd
  update (marked cmd)
  pure result

/-- `IPCThreadState_executeCommand`, to a depth of replies that wait for each other. -/
def executeCommand : Nat → ReturnCommand → Prog (IPCThread V) Fault Int
  | 0, _ => fault .tooDeep
  | n + 1, cmd => do
    let result ← carryOut x perform turns (executeCommand n) cmd
    if result = STATUS_OK then pure result
    else do
      update fun s => { s with mLastError := result }
      pure result

/-- `IPCThreadState_transact`. Without a parcel for it the reply goes into one of its own. -/
def transact (handle code : BitVec 32) (data : Parcel) (reply : Option Parcel)
    (flags : BitVec 32) : Prog (IPCThread V) Fault Response := do
  let flags := flags ||| TF_ACCEPT_FDS
  let err ← writeRequest flags handle code data
  if err ≠ STATUS_OK then do
    update fun s => { s with mLastError := err }
    pure ⟨err, reply.map (withError err), []⟩
  else if twoWay flags = true then do
    let s ← get
    if s.mCallRestriction = .FATAL_IF_NOT_ONEWAY then
      fault (.logFatal "Process may not make non-oneway calls")
    else do
      let response ← waitForResponse x perform turns (executeCommand x perform turns turns)
        (some (reply.getD Parcel.empty))
      pure { response with reply := if reply.isSome = true then response.reply else none }
  else do
    let response ← waitForResponse x perform turns (executeCommand x perform turns turns) none
    pure { response with reply := reply }

/-! ## The knot -/

/-- What a function of the thread does for code outside. -/
def act : Action → Prog (IPCThread V) Fault Answer
  | .set setting => set x setting
  | .setCallRestriction restriction => do
    update fun s => { s with mCallRestriction := restriction }
    pure .nothing
  | .flushCommands => do
    flushCommands x perform turns
    pure .nothing
  | .flushIfNeeded => do
    let flushed ← flushIfNeeded x perform turns
    pure (.flushed flushed)
  | .incStrongHandle handle proxy => do
    incStrongHandle x perform turns handle proxy
    pure .nothing
  | .decStrongHandle handle => do
    writeAndFlush x perform turns (.BC_RELEASE handle)
    pure .nothing
  | .incWeakHandle handle proxy => do
    incWeakHandle x perform turns handle proxy
    pure .nothing
  | .decWeakHandle handle => do
    writeAndFlush x perform turns (.BC_DECREFS handle)
    pure .nothing
  | .requestDeathNotification handle proxy => do
    write (.BC_REQUEST_DEATH_NOTIFICATION handle proxy)
    pure (.status STATUS_OK)
  | .clearDeathNotification handle proxy => do
    write (.BC_CLEAR_DEATH_NOTIFICATION handle proxy)
    pure (.status STATUS_OK)
  | .transact handle code data reply flags => do
    let response ← transact x perform turns handle code data reply flags
    pure (.transacted response.err response.reply)
  | .freeBuffer data => do
    freeBuffer x perform turns data
    pure .nothing

/-- The functions of the thread for code outside, to a depth of calls within calls. -/
def knot : Nat → Action → Prog (IPCThread V) Fault Answer
  | 0 => fun _ => fault .tooDeep
  | n + 1 => act x (knot n) n

/-! ## A thread and a driver -/

/-- `IPCThreadState_ctor` in a process with a driver. -/
def new (mDriverFD : Int) (mCallRestriction : CallRestriction) (heap : Heap) (world : V) :
    IPCThread V where
  thread := ⟨none, x.getpid, none, x.getuid, 0, 0, kUnsetWorkSource, false⟩
  mIsLooper := false
  mIsFlushing := false
  mLastError := STATUS_OK
  mCallRestriction := mCallRestriction
  mDriverFD := mDriverFD
  mIn := []
  mOut := []
  mPendingWeakDerefs := []
  mPendingStrongDerefs := []
  mPostWriteWeakDerefs := []
  mPostWriteStrongDerefs := []
  heap := heap
  world := world
  asked := 0
  queued := []
  sent := []
  executed := []
  own := []

/-- Objects without callbacks, one handler for every transaction, and a driver that sends the
buffers one after another. -/
def scripted (buffers : List (List ReturnCommand)) (handler : Foreign Unit (Int × Parcel)) :
    Env Unit where
  getpid := 100
  getuid := 1000
  frameAddress := 4096
  statusBuffer := 8192
  driver := fun n => (buffers[n]?.map (DriverAnswer.done .all)).getD (.fails EBADF.toNat)
  torn := fun _ => []
  mContextObject := fun _ => 64
  refBase := fun refs _ => refs + 8
  getWeakRefs := fun proxy _ => proxy + 8
  incStrong := fun _ => .done ()
  decStrong := fun _ => .done ()
  incWeak := fun _ => .done ()
  decWeak := fun _ => .done ()
  attemptIncStrong := fun _ => .done true
  sendObituary := fun _ => .done ()
  spawnPooledThread := .done ()
  getStrongProxyForHandle := fun _ => .done 0
  close := fun _ => .done ()
  transact := fun _ _ _ _ _ => handler

/-- A thread that is new to the driver. -/
def fresh : IPCThread Unit :=
  new (scripted [] (.done (STATUS_OK, Parcel.empty))) 3 .NONE
    ⟨fun _ => none, 0, fun _ => 0, 0, [], [], 0, 0⟩ ()

/-- The word 7 from a process, for the context object or as a reply. -/
def wordFrom (pid : BitVec 32) : Delivery where
  tr := ⟨0, 0, 1, 0, pid, 2000, 4, 0, 512, 1024⟩
  data := ⟨512, [7, 0, 0, 0]⟩
  objects := ⟨1024, []⟩
  data_address := rfl
  objects_address := rfl

end system_binder.IPCThread
