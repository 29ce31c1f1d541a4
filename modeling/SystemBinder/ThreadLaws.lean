-- What holds through every call of a thread, however deep the calls go: what each step of the
-- thread keeps, the loops, the handlers and the code outside keep too.
import SystemBinder.Transactions

open prog memory

namespace system_binder.IPCThread

variable {V ι α : Type} {x : Env V}

/-! ## The rules -/

/-- What a step of the thread may change. -/
structure Core where
  thread : ThreadState
  own : List Setting
  mIn : List ReturnCommand
  mOut : List OutCommand
  queued : List OutCommand
  sent : List OutCommand
  executed : List ReturnCommand

def core (s : IPCThread V) : Core where
  thread := s.thread
  own := s.own
  mIn := s.mIn
  mOut := s.mOut
  queued := s.queued
  sent := s.sent
  executed := s.executed

/-- After a command was written. -/
def written (cmd : OutCommand) (s : IPCThread V) : IPCThread V :=
  { s with mOut := s.mOut ++ [cmd], queued := s.queued ++ [cmd] }

/-- After a field of the thread state was set. -/
def assigned (x : Env V) (setting : Setting) (s : IPCThread V) : IPCThread V :=
  { s with thread := setting.apply x s.thread, own := s.own ++ [setting] }

/-- What the driver waits for after a command. -/
inductive Acknowledgement
  | acquired (refs obj : BitVec 64)
  | referenced (refs obj : BitVec 64)
  | attempted
  | buried (proxy : BitVec 64)
  | replied
deriving DecidableEq, Repr

/-- What the command acknowledges. -/
def acknowledges : OutCommand → Option Acknowledgement
  | .BC_ACQUIRE_DONE refs obj => some (.acquired refs obj)
  | .BC_INCREFS_DONE refs obj => some (.referenced refs obj)
  | .BC_ACQUIRE_RESULT _ => some .attempted
  | .BC_DEAD_BINDER_DONE proxy => some (.buried proxy)
  | .BC_REPLY _ => some .replied
  | _ => none

/-- What the command waits for. -/
def awaits : ReturnCommand → Option Acknowledgement
  | .BR_ACQUIRE refs obj => some (.acquired refs obj)
  | .BR_INCREFS refs obj => some (.referenced refs obj)
  | .BR_ATTEMPT_ACQUIRE _ _ => some .attempted
  | .BR_DEAD_BINDER proxy => some (.buried proxy)
  | .BR_TRANSACTION_SEC_CTX d | .BR_TRANSACTION d =>
    if twoWay d.tr.flags = true then some .replied else none
  | _ => none

/-- The commands that the driver sends. -/
def DriverAnswer.commands : DriverAnswer → List ReturnCommand
  | .fails _ => []
  | .done _ read => read

/-- The parcel hands back no buffer but one that may be handed back. -/
def HandsBack (free : Nat → Prop) (p : Parcel) : Prop := p.mOwner.isSome = true → free p.address

/-- The code outside calls only what is in `ask`, as long as the answers are in `told`. -/
structure Env.Asks (x : Env V) (ask : Action → Prop) (told : Answer → Prop) : Prop where
  incStrong : ∀ a, (x.incStrong a).Asks ask told fun _ => True
  decStrong : ∀ a, (x.decStrong a).Asks ask told fun _ => True
  incWeak : ∀ a, (x.incWeak a).Asks ask told fun _ => True
  decWeak : ∀ a, (x.decWeak a).Asks ask told fun _ => True
  attemptIncStrong : ∀ a, (x.attemptIncStrong a).Asks ask told fun _ => True
  sendObituary : ∀ a, (x.sendObituary a).Asks ask told fun _ => True
  spawnPooledThread : x.spawnPooledThread.Asks ask told fun _ => True
  getStrongProxyForHandle : ∀ h, (x.getStrongProxyForHandle h).Asks ask told fun _ => True
  close : ∀ fd, (x.close fd).Asks ask told fun _ => True
  transact : ∀ b c p q f, (x.transact b c p q f).Asks ask told fun _ => True

theorem Env.asks_all {ask : Action → Prop} {told : Answer → Prop} (hask : ∀ a, ask a) :
    x.Asks ask told where
  incStrong _ := Code.asks_all hask fun _ => trivial
  decStrong _ := Code.asks_all hask fun _ => trivial
  incWeak _ := Code.asks_all hask fun _ => trivial
  decWeak _ := Code.asks_all hask fun _ => trivial
  attemptIncStrong _ := Code.asks_all hask fun _ => trivial
  sendObituary _ := Code.asks_all hask fun _ => trivial
  spawnPooledThread := Code.asks_all hask fun _ => trivial
  getStrongProxyForHandle _ := Code.asks_all hask fun _ => trivial
  close _ := Code.asks_all hask fun _ => trivial
  transact _ _ _ _ _ := Code.asks_all hask fun _ => trivial

/-- A family of states that each step keeps, with the buffers that may be handed back, and what may
be asked, told and read. What acknowledges a command leads from one index to another, and from there
the end of the command leads back. -/
structure Rules (x : Env V) (ι : Type) where
  Inv : ι → IPCThread V → Prop
  after : Option Acknowledgement → ι → ι
  ask : Action → Prop
  told : Answer → Prop
  free : Nat → Prop
  readable : ReturnCommand → Prop
  after_none : ∀ i, after none i = i
  congr : ∀ {i s s'}, s'.core = s.core → Inv i s → Inv i s'
  set : ∀ {i s setting}, ask (.set setting) → Inv i s → Inv i (assigned x setting s)
  write : ∀ {i s cmd}, (∀ b, cmd = .BC_FREE_BUFFER b → free b) → Inv i s →
    Inv (after (acknowledges cmd) i) (written cmd s)
  take : ∀ {i s}, Inv i s → Inv i { s with mOut := [], sent := s.sent ++ s.mOut }
  read : ∀ {i s cmds}, (∀ cmd ∈ cmds, readable cmd) → Inv i s → Inv i { s with mIn := cmds }
  pop : ∀ {i s cmd rest}, Inv i s → s.mIn = cmd :: rest →
    readable cmd ∧ Inv i { s with mIn := rest }
  mark : ∀ {i s cmd}, Inv (after (awaits cmd) i) s → Inv i (marked cmd s)
  asks : x.Asks ask told
  driver : ∀ n, ∀ cmd ∈ (x.driver n).commands, readable cmd
  torn : ∀ n, ∀ cmd ∈ x.torn n, readable cmd
  read_reply : ∀ d, readable (.BR_REPLY d) → free d.tr.buffer
  ask_freeBuffer : ∀ b, ask (.freeBuffer b) → free b
  ask_transact : ∀ h c data p f, ask (.transact h c data (some p) f) → HandsBack free p
  told_transacted : ∀ err reply, (∀ p, reply = some p → HandsBack free p) →
    told (.transacted err reply)
  told_other : ∀ answer, (∀ err reply, answer ≠ .transacted err reply) → told answer

/-- A family of states that each step keeps, whatever is asked, told and read. -/
structure FreeRules (x : Env V) (ι : Type) where
  Inv : ι → IPCThread V → Prop
  after : Option Acknowledgement → ι → ι
  after_none : ∀ i, after none i = i
  congr : ∀ {i s s'}, s'.core = s.core → Inv i s → Inv i s'
  set : ∀ {i s} setting, Inv i s → Inv i (assigned x setting s)
  write : ∀ {i s} cmd, Inv i s → Inv (after (acknowledges cmd) i) (written cmd s)
  take : ∀ {i s}, Inv i s → Inv i { s with mOut := [], sent := s.sent ++ s.mOut }
  read : ∀ {i s} cmds, Inv i s → Inv i { s with mIn := cmds }
  mark : ∀ {i s cmd}, Inv (after (awaits cmd) i) s → Inv i (marked cmd s)

def FreeRules.rules (k : FreeRules x ι) : Rules x ι where
  Inv := k.Inv
  after := k.after
  ask := fun _ => True
  told := fun _ => True
  free := fun _ => True
  readable := fun _ => True
  after_none := k.after_none
  congr := k.congr
  set := fun _ h => k.set _ h
  write := fun _ h => k.write _ h
  take := k.take
  read := fun _ h => k.read _ h
  pop := fun h _ => ⟨trivial, k.read _ h⟩
  mark := k.mark
  asks := Env.asks_all fun _ => trivial
  driver := fun _ _ _ => trivial
  torn := fun _ _ _ => trivial
  read_reply := fun _ _ => trivial
  ask_freeBuffer := fun _ _ => trivial
  ask_transact := fun _ _ _ _ _ _ _ => trivial
  told_transacted := fun _ _ _ => trivial
  told_other := fun _ _ => trivial

namespace Rules

variable (k : Rules x ι) {perform : Action → Prog (IPCThread V) Fault Answer} {turns : Nat}
  {onCommand : ReturnCommand → Prog (IPCThread V) Fault Int}

/-- The program keeps the family and returns something in `P`. -/
abbrev Keeping (P : α → Prop) (m : Prog (IPCThread V) Fault α) : Prop := Stays k.Inv P m

/-- Whatever it returns. -/
abbrev Kept (m : Prog (IPCThread V) Fault α) : Prop := k.Keeping (fun _ => True) m

/-- The program acknowledges something, once. -/
def Moves (ack : Option Acknowledgement) (m : Prog (IPCThread V) Fault α) : Prop :=
  ∀ i s, k.Inv i s → wp m (fun _ s' => k.Inv (k.after ack i) s') (fun _ => True) s

/-- The functions that code outside may call keep the family. -/
def Performs (perform : Action → Prog (IPCThread V) Fault Answer) : Prop :=
  ∀ a, k.ask a → k.Keeping k.told (perform a)

/-- To execute a command that is read keeps the family. -/
def Executes (onCommand : ReturnCommand → Prog (IPCThread V) Fault Int) : Prop :=
  ∀ cmd, k.readable cmd → k.Kept (onCommand cmd)

theorem same {f : IPCThread V → IPCThread V} (h : ∀ s, (f s).core = s.core) : k.Kept (update f) :=
  .update fun _ s hs => k.congr (h s) hs

theorem done : k.Kept (pure () : Prog (IPCThread V) Fault Unit) := .pure trivial

theorem moves {cmd : OutCommand} (h : ∀ b, cmd = .BC_FREE_BUFFER b → k.free b) :
    k.Moves (acknowledges cmd) (IPCThread.write cmd) := fun _ _ hs => k.write h hs

theorem writes {cmd : OutCommand} (hack : acknowledges cmd = none)
    (h : ∀ b, cmd = .BC_FREE_BUFFER b → k.free b) : k.Kept (IPCThread.write cmd) := by
  intro i s hs
  have hwritten := k.write h hs
  rw [hack, k.after_none] at hwritten
  exact ⟨trivial, hwritten⟩

variable {k}

theorem Moves.of_kept {m : Prog (IPCThread V) Fault α} (hm : k.Kept m) : k.Moves none m := by
  intro i s hs
  rw [k.after_none]
  exact wp_imp (hm i s hs) fun _ _ hs' => hs'.2

theorem Moves.before {β : Type} {ack : Option Acknowledgement} {m : Prog (IPCThread V) Fault α}
    {f : α → Prog (IPCThread V) Fault β} (hm : k.Kept m) (hf : ∀ a, k.Moves ack (f a)) :
    k.Moves ack (m >>= f) := by
  intro i s hs
  rw [wp_bind]
  exact wp_imp (hm i s hs) fun a s' hs' => hf a i s' hs'.2

theorem Moves.then {β : Type} {ack : Option Acknowledgement} {m : Prog (IPCThread V) Fault α}
    {f : α → Prog (IPCThread V) Fault β} (hm : k.Moves ack m) (hf : ∀ a, k.Kept (f a)) :
    k.Moves ack (m >>= f) := by
  intro i s hs
  rw [wp_bind]
  refine wp_imp (hm i s hs) fun a s' hs' => ?_
  exact wp_imp (hf a _ s' hs') fun _ _ h => h.2

/-! ## Writing to the driver -/

theorem Performs.foreign {code : Foreign V α} (h : k.Performs perform)
    (hcode : code.Asks k.ask k.told fun _ => True) : k.Kept (foreign perform code) :=
  Code.stays_exec (fun _ _ _ hs => k.congr (by rfl) hs) h hcode

theorem Performs.releaseWeak (h : k.Performs perform) (n i : Nat) :
    k.Kept (releaseWeak x perform n i) := by
  induction n generalizing i with
  | zero => exact .fault _
  | succ n ih =>
    refine .look fun s => ?_
    split
    · exact k.done
    · exact .bind (h.foreign (k.asks.decWeak _)) fun _ _ => ih _

theorem Performs.releaseStrong (h : k.Performs perform) (n i : Nat) :
    k.Kept (releaseStrong x perform n i) := by
  induction n generalizing i with
  | zero => exact .fault _
  | succ n ih =>
    refine .look fun s => ?_
    split
    · exact k.done
    · exact .bind (h.foreign (k.asks.decStrong _)) fun _ _ => ih _

theorem Performs.processPostWriteDerefs (h : k.Performs perform) :
    k.Kept (processPostWriteDerefs x perform turns) := by
  refine .bind (h.releaseWeak _ _) fun _ _ => .bind (k.same fun _ => rfl) fun _ _ => ?_
  exact .bind (h.releaseStrong _ _) fun _ _ => k.same fun _ => rfl

theorem receive {asked : Nat} {cmds : List ReturnCommand} (hcmds : ∀ cmd ∈ cmds, k.readable cmd) :
    k.Kept (receive x asked cmds) := by
  refine .ite (fun _ => k.done) fun _ => .update fun i s hs => ?_
  apply k.read _ hs
  split
  · exact hcmds
  · exact k.torn _

/-- The driver is given all that was written, or nothing. -/
theorem Performs.takeCommands (h : k.Performs perform) {given : List OutCommand}
    (written : WriteConsumed) {i : ι} {s : IPCThread V} (hs : k.Inv i s)
    (hgiven : given = [] ∨ given = s.mOut) : wp (takeCommands x perform turns given written)
      (fun _ s' => k.Inv i s') (fun _ => True) s := by
  have hall : ∀ given, given = s.mOut → wp (do
      update fun s => { s with mOut := [], sent := s.sent ++ given }
      IPCThread.processPostWriteDerefs x perform turns) (fun _ s' => k.Inv i s')
      (fun _ => True) s := by
    rintro _ rfl
    unfold update
    rw [wp_bind, wp_modify]
    exact wp_imp (h.processPostWriteDerefs i _ (k.take hs)) fun _ _ hs' => hs'.2
  cases given with
  | nil => exact hs
  | cons cmd cmds =>
    cases written with
    | none => exact hs
    | part => trivial
    | all => exact hall _ (hgiven.resolve_left (by simp))

theorem outAvail_cases (doReceive : Bool) (s : IPCThread V) :
    outAvail doReceive s = [] ∨ outAvail doReceive s = s.mOut := by
  unfold outAvail
  split
  · exact .inr rfl
  · exact .inl rfl

theorem Performs.talkWithDriver (h : k.Performs perform) (doReceive : Bool) :
    k.Kept (talkWithDriver x perform turns doReceive) := by
  intro i s hs
  have hasked : k.Inv i { s with asked := s.asked + 1 } := k.congr (by rfl) hs
  have hread := k.driver s.asked
  unfold IPCThread.talkWithDriver
  rw [wp_bind, wp_get]
  split
  · exact ⟨trivial, hs⟩
  · split
    · exact ⟨trivial, hs⟩
    · unfold update
      rw [wp_bind, wp_modify]
      rcases hanswer : x.driver s.asked with errno | ⟨written, read⟩
      · exact ⟨trivial, hasked⟩
      · dsimp only
        rw [wp_bind]
        apply wp_imp (h.takeCommands written hasked (outAvail_cases doReceive s))
        intro _ s₁ hs₁
        rw [hanswer] at hread
        split
        · exact Stays.bind (Q := fun _ => True) (receive hread) (fun _ _ => .pure trivial) i s₁ hs₁
        · exact ⟨trivial, hs₁⟩

theorem Performs.flushCommands (h : k.Performs perform) :
    k.Kept (flushCommands x perform turns) := by
  refine .look fun s => .ite (fun _ => k.done) fun _ => ?_
  refine .bind (h.talkWithDriver false) fun _ _ => .look fun s' => ?_
  refine .ite (fun _ => k.done) fun _ => ?_
  exact .bind (h.talkWithDriver false) fun _ _ => k.done

theorem Performs.flushIfNeeded (h : k.Performs perform) :
    k.Kept (flushIfNeeded x perform turns) := by
  refine .look fun s => .ite (fun _ => .pure trivial) fun _ => ?_
  refine .bind (k.same fun _ => rfl) fun _ _ => .bind h.flushCommands fun _ _ => ?_
  exact .bind (k.same fun _ => rfl) fun _ _ => .pure trivial

theorem Performs.writeAndFlush (h : k.Performs perform) {cmd : OutCommand}
    (hack : acknowledges cmd = none) (hcmd : ∀ b, cmd = .BC_FREE_BUFFER b → k.free b) :
    k.Kept (writeAndFlush x perform turns cmd) :=
  .bind (k.writes hack hcmd) fun _ _ => .bind h.flushIfNeeded fun _ _ => k.done

theorem Performs.freeBuffer (h : k.Performs perform) {data : Nat} (hdata : k.free data) :
    k.Kept (freeBuffer x perform turns data) := by
  refine .ite (fun _ => .fault _) fun _ => h.writeAndFlush rfl ?_
  rintro _ ⟨⟩
  exact hdata

theorem Performs.incStrongHandle (h : k.Performs perform) (handle : BitVec 32) (proxy : BitVec 64) :
    k.Kept (incStrongHandle x perform turns handle proxy) := by
  refine .bind (k.writes rfl fun _ h => by cases h) fun _ _ => .bind h.flushIfNeeded fun _ _ => ?_
  refine .ite (fun _ => k.done) fun _ => .bind (h.foreign (k.asks.incStrong _)) fun _ _ => ?_
  exact k.same fun _ => rfl

theorem Performs.incWeakHandle (h : k.Performs perform) (handle : BitVec 32) (proxy : BitVec 64) :
    k.Kept (incWeakHandle x perform turns handle proxy) := by
  refine .bind (k.writes rfl fun _ h => by cases h) fun _ _ => .bind h.flushIfNeeded fun _ _ => ?_
  refine .ite (fun _ => k.done) fun _ => .look fun s => ?_
  exact .bind (h.foreign (k.asks.incWeak _)) fun _ _ => k.same fun _ => rfl

/-! ## Parcels -/

/-- A parcel that takes a delivered buffer hands back its old one, if any, and owns the new one. -/
theorem Performs.refer (h : k.Performs perform) (d : Delivery) {p : Parcel}
    (hp : HandsBack k.free p) : k.Keeping (fun p' => p'.address = d.tr.buffer)
      (refer x perform turns d p) := by
  intro i s hs
  have houtside : Parcel.OutsideKeeps (IPCThread.outside x perform turns)
      fun s s' => ∀ i, k.Inv i s → k.Inv i s' :=
    { frame := families_frame
      incStrong := fun a => (h.foreign (k.asks.incStrong a)).keeps
      decStrong := fun a => (h.foreign (k.asks.decStrong a)).keeps
      getStrongProxyForHandle := fun b => (h.foreign (k.asks.getStrongProxyForHandle b)).keeps
      close := fun fd => (h.foreign (k.asks.close fd)).keeps }
  unfold IPCThread.refer
  rw [wp_onParcel]
  apply wp_imp (Parcel.ipcSetDataReference.spec houtside ?_)
  · rintro _ c ⟨hkept, hdelivered⟩
    have haddress : c.parcel.address = d.tr.buffer := by
      unfold Parcel.address
      rw [hdelivered.data]
      exact d.data_address
    exact ⟨haddress, k.congr (by rfl) (hkept i hs)⟩
  · intro howner
    exact (h.freeBuffer (hp howner)).keeps

/-! ## Waiting -/

/-- What ends a wait leaves a parcel that hands back nothing else. -/
def Verdict.HandsBack (free : Nat → Prop) : Verdict → Prop
  | .goesOn => True
  | .ends _ reply => ∀ p, reply = some p → IPCThread.HandsBack free p

theorem Performs.takeReply (h : k.Performs perform) {d : Delivery} (hd : k.readable (.BR_REPLY d))
    {reply : Option Parcel} (hreply : ∀ p, reply = some p → HandsBack k.free p) :
    k.Keeping (Verdict.HandsBack k.free) (takeReply x perform turns d reply) := by
  have hbuffer := k.read_reply d hd
  have hfree : k.Kept (IPCThread.freeBuffer x perform turns d.data.address) := by
    apply h.freeBuffer
    rw [d.data_address]
    exact hbuffer
  cases reply with
  | none => exact .bind hfree fun _ _ => .pure trivial
  | some p =>
    refine .ite (fun _ => .bind (h.refer d (hreply p rfl)) fun p' hp' => .pure ?_) fun _ => ?_
    · rintro _ ⟨⟩ _
      rw [hp']
      exact hbuffer
    · have hload : k.Kept (loadStatus d) := .ite (fun _ => .pure trivial) fun _ => .fault _
      exact .bind hload fun _ _ => .bind hfree fun _ _ => .pure hreply

theorem Performs.respond (h : k.Performs perform) (hcommand : k.Executes onCommand)
    {reply : Option Parcel} (hreply : ∀ p, reply = some p → HandsBack k.free p)
    {cmd : ReturnCommand} (hcmd : k.readable cmd) :
    k.Keeping (Verdict.HandsBack k.free) (respond x perform turns onCommand reply cmd) := by
  have hother : k.Keeping (Verdict.HandsBack k.free) (do
      let err ← onCommand cmd
      if err = STATUS_OK then pure Verdict.goesOn else pure (.ends err reply)) :=
    .bind (hcommand cmd hcmd) fun _ _ => .ite (fun _ => .pure trivial) fun _ => .pure hreply
  have hnone : ∀ p : Parcel, none = some p → HandsBack k.free p := by
    intro p hp
    cases hp
  cases cmd with
  | BR_REPLY d => exact h.takeReply hcmd hreply
  | BR_DEAD_REPLY | BR_FAILED_REPLY | BR_FROZEN_REPLY => exact .pure hreply
  | BR_ACQUIRE_RESULT => exact .fault _
  | BR_ONEWAY_SPAM_SUSPECT | BR_TRANSACTION_COMPLETE =>
    exact .ite (fun _ => .pure hnone) fun _ => .pure trivial
  | _ => exact hother

/-- The parcel of an answer hands back nothing else. -/
def Response.HandsBack (free : Nat → Prop) (r : Response) : Prop :=
  ∀ p, r.reply = some p → IPCThread.HandsBack free p

theorem HandsBack.withError {free : Nat → Prop} {p : Parcel} {err : Int}
    (hp : HandsBack free p) : HandsBack free (withError err p) := hp

theorem handsBack_map {free : Nat → Prop} {reply : Option Parcel} (err : Int)
    (hreply : ∀ p, reply = some p → HandsBack free p) :
    ∀ p, reply.map (IPCThread.withError err) = some p → HandsBack free p := by
  intro p hp
  obtain ⟨q, hq, rfl⟩ := Option.map_eq_some_iff.mp hp
  exact HandsBack.withError (hreply q hq)

theorem finish.keeping {err : Int} {reply : Option Parcel} {taken : List ReturnCommand}
    (hreply : ∀ p, reply = some p → HandsBack k.free p) :
    k.Keeping (Response.HandsBack k.free) (finish err reply taken) := by
  refine .ite (fun _ => .pure hreply) fun _ => .bind (k.same fun _ => rfl) fun _ _ => .pure ?_
  exact handsBack_map err hreply

theorem Performs.waitFrom (h : k.Performs perform) (hcommand : k.Executes onCommand) (n : Nat)
    {reply : Option Parcel} (hreply : ∀ p, reply = some p → HandsBack k.free p)
    (taken : List ReturnCommand) : k.Keeping (Response.HandsBack k.free)
      (waitFrom x perform turns onCommand reply n taken) := by
  induction n generalizing taken with
  | zero => exact .fault _
  | succ n ih =>
    refine .bind (h.talkWithDriver true) fun err _ => ?_
    refine .ite (fun _ => finish.keeping hreply) fun _ => ?_
    intro i s hs
    rw [wp_bind, wp_get]
    split
    · exact ih taken i s hs
    · rename_i cmd rest hin
      obtain ⟨hcmd, hpop⟩ := k.pop hs hin
      unfold update
      rw [wp_bind, wp_modify, wp_bind]
      apply wp_imp (h.respond hcommand hreply hcmd i _ hpop)
      rintro verdict s' ⟨hverdict, hs'⟩
      cases verdict with
      | goesOn => exact ih _ i s' hs'
      | ends err reply => exact finish.keeping hverdict i s' hs'

/-! ## Serving -/

theorem Performs.acquireTarget (h : k.Performs perform) (tr : TransactionData) :
    k.Kept (acquireTarget x perform tr) := by
  refine .ite (fun _ => ?_) fun _ => .look fun s => ?_
  · exact .bind (h.foreign (k.asks.attemptIncStrong _)) fun _ _ => .pure trivial
  · exact .ite (fun _ => .fault _) fun _ => .pure trivial

theorem Performs.handle (h : k.Performs perform) (tr : TransactionData) (buffer : Parcel)
    (target : Option (BitVec 64)) : k.Kept (handle x perform tr buffer target) := by
  cases target with
  | none => exact .pure trivial
  | some bbinder =>
    refine .bind (h.foreign (k.asks.transact _ _ _ _ _)) fun result _ => ?_
    exact .ite (fun _ => .bind (h.foreign (k.asks.decStrong _)) fun _ _ => .pure trivial)
      fun _ => .pure trivial

/-- The thread waits until the driver has what it sent. -/
theorem Performs.waitForResponse (h : k.Performs perform) (hcommand : k.Executes onCommand) :
    k.Kept (waitForResponse x perform turns onCommand none) := by
  refine (h.waitFrom hcommand turns ?_ []).imp fun _ _ => trivial
  intro p hp
  cases hp

/-- A transaction that waits for its answer is answered once. -/
theorem Performs.answer (h : k.Performs perform) (hcommand : k.Executes onCommand)
    (tr : TransactionData) (error : Int) (reply : Parcel) :
    k.Moves (if twoWay tr.flags = true then some .replied else none)
      (answer x perform turns onCommand tr error reply) := by
  have hsend : ∀ p flags, k.Moves (some .replied)
      (sendReply x perform turns onCommand p flags) := by
    intro p flags
    refine .then ?_ fun _ => .bind (h.waitForResponse hcommand) fun _ _ => k.done
    unfold writeReply
    split
    · exact k.moves fun _ h => by cases h
    · exact k.moves fun _ h => by cases h
  unfold IPCThread.answer
  split
  · exact hsend _ _
  · exact .of_kept k.done

/-- To serve a transaction answers it once, if it waits for that. -/
def Serves (k : Rules x ι) : Prop :=
  ∀ perform turns onCommand d, k.Performs perform → k.Executes onCommand →
    k.Moves (awaits (.BR_TRANSACTION d)) (serve x perform turns onCommand d)

/-- A family that does not look at for whom the thread works. -/
theorem serves_of (hbegun : ∀ i s d, k.Inv i s → k.Inv i (begun x d s))
    (hrestored : ∀ i s orig own, k.Inv i s → k.Inv i (restored orig own s)) : k.Serves := by
  intro perform turns onCommand d h hcommand i s hs
  have hempty : HandsBack k.free Parcel.empty := fun howner => absurd howner (by decide)
  unfold serve
  rw [wp_bind]
  refine wp_imp (h.refer d hempty i s hs) fun buffer s₁ ⟨_, hs₁⟩ => ?_
  unfold update
  rw [wp_bind, wp_get, wp_bind, wp_modify, wp_bind]
  refine wp_imp (h.acquireTarget d.tr i _ (hbegun i s₁ d hs₁)) fun target s₂ ⟨_, hs₂⟩ => ?_
  rw [wp_bind]
  refine wp_imp (h.handle d.tr buffer target i s₂ hs₂) ?_
  rintro ⟨error, reply⟩ s₃ ⟨-, hs₃⟩
  rw [wp_bind]
  refine wp_imp (h.answer hcommand d.tr error reply i s₃ hs₃) fun _ s₄ hs₄ => ?_
  exact hrestored _ s₄ _ _ hs₄

/-! ## Commands -/

theorem checkObject.kept (command : String) (refs obj : BitVec 64) :
    k.Kept (checkObject x command refs obj) :=
  .look fun _ => .ite (fun _ => k.done) fun _ => .fault _

/-- A command is acknowledged once, if it waits for that. -/
theorem Performs.execute (h : k.Performs perform) (hserves : k.Serves)
    (hcommand : k.Executes onCommand) (cmd : ReturnCommand) :
    k.Moves (awaits cmd) (execute x perform turns onCommand cmd) := by
  have hok : k.Kept (pure STATUS_OK : Prog (IPCThread V) Fault Int) := .pure trivial
  have hplain : k.Moves none (pure STATUS_OK : Prog (IPCThread V) Fault Int) := .of_kept hok
  cases cmd with
  | BR_ERROR | BR_FINISHED => exact .of_kept (.pure trivial)
  | BR_ACQUIRE refs obj =>
    refine .before (checkObject.kept _ _ _) fun _ => ?_
    refine .before (h.foreign (k.asks.incStrong _)) fun _ => ?_
    exact .then (k.moves fun _ h => by cases h) fun _ => hok
  | BR_RELEASE refs obj =>
    exact .before (checkObject.kept _ _ _) fun _ => .before (k.same fun _ => rfl) fun _ => hplain
  | BR_INCREFS refs obj =>
    refine .before (h.foreign (k.asks.incWeak _)) fun _ => ?_
    exact .then (k.moves fun _ h => by cases h) fun _ => hok
  | BR_DECREFS refs obj => exact .before (k.same fun _ => rfl) fun _ => hplain
  | BR_ATTEMPT_ACQUIRE refs obj =>
    refine .before (h.foreign (k.asks.attemptIncStrong _)) fun success => ?_
    have hdone : k.Moves (some .attempted) (do
        IPCThread.write (.BC_ACQUIRE_RESULT success)
        pure STATUS_OK) := .then (k.moves fun _ h => by cases h) fun _ => hok
    dsimp only
    split
    · exact .before (checkObject.kept _ _ _) fun _ => hdone
    · exact .before (.fault _ : k.Kept _) fun _ => hdone
  | BR_TRANSACTION_SEC_CTX d | BR_TRANSACTION d =>
    exact .then (hserves perform turns onCommand d h hcommand) fun _ => hok
  | BR_DEAD_BINDER proxy =>
    refine .before (h.foreign (k.asks.sendObituary _)) fun _ => ?_
    exact .then (k.moves fun _ h => by cases h) fun _ => hok
  | BR_CLEAR_DEATH_NOTIFICATION_DONE proxy =>
    exact .of_kept (.look fun s => .bind (h.foreign (k.asks.decWeak _)) fun _ _ => hok)
  | BR_SPAWN_LOOPER => exact .before (h.foreign k.asks.spawnPooledThread) fun _ => hplain
  | _ => exact .of_kept (.pure trivial)

theorem Performs.carryOut (h : k.Performs perform) (hserves : k.Serves)
    (hcommand : k.Executes onCommand) (cmd : ReturnCommand) :
    k.Kept (carryOut x perform turns onCommand cmd) := by
  intro i s hs
  unfold IPCThread.carryOut update
  rw [wp_bind]
  refine wp_imp (h.execute hserves hcommand cmd i s hs) fun _ s' hs' => ?_
  exact ⟨trivial, k.mark hs'⟩

theorem Performs.executeCommand (h : k.Performs perform) (hserves : k.Serves) (n : Nat) :
    k.Executes (executeCommand x perform turns n) := by
  induction n with
  | zero => exact fun _ _ => .fault _
  | succ n ih =>
    intro cmd _
    refine .bind (h.carryOut hserves ih cmd) fun _ _ => .ite (fun _ => .pure trivial) fun _ => ?_
    exact .bind (k.same fun _ => rfl) fun _ _ => .pure trivial

theorem Performs.transact (h : k.Performs perform) (hserves : k.Serves) (handle code : BitVec 32)
    (data : Parcel) {reply : Option Parcel} (flags : BitVec 32)
    (hreply : ∀ p, reply = some p → HandsBack k.free p) :
    k.Keeping (Response.HandsBack k.free)
      (transact x perform turns handle code data reply flags) := by
  have hrequest : k.Kept (writeRequest (V := V) (flags ||| TF_ACCEPT_FDS) handle code data) := by
    refine .ite (fun _ => ?_) fun _ => .bind (k.same fun _ => rfl) fun _ _ => .pure trivial
    exact .bind (k.writes rfl fun _ h => by cases h) fun _ _ => .pure trivial
  have hcommand : k.Executes (IPCThread.executeCommand x perform turns turns) :=
    h.executeCommand hserves turns
  refine .bind hrequest fun err _ => .ite (fun _ => ?_) fun _ => .ite (fun _ => ?_) fun _ => ?_
  · exact .bind (k.same fun _ => rfl) fun _ _ => .pure (handsBack_map err hreply)
  · refine .look fun s => .ite (fun _ => .fault _) fun _ => ?_
    have hparcel : ∀ p, some (reply.getD Parcel.empty) = some p → HandsBack k.free p := by
      rintro _ ⟨⟩
      cases reply with
      | none => exact fun howner => absurd howner (by decide)
      | some p => exact hreply p rfl
    refine .bind (h.waitFrom hcommand turns hparcel []) fun r hr => .pure fun p hp => ?_
    dsimp only at hp
    split at hp
    · exact hr p hp
    · cases hp
  · have hnone : ∀ p : Parcel, none = some p → HandsBack k.free p := by
      intro p hp
      cases hp
    exact .bind (h.waitFrom hcommand turns hnone []) fun r _ => .pure hreply

/-! ## The knot -/

theorem told_nothing : k.told .nothing := k.told_other _ fun _ _ h => by cases h

theorem Performs.act (h : k.Performs perform) (hserves : k.Serves) :
    k.Performs (act x perform turns) := by
  intro action hask
  have hnothing : k.Keeping k.told (pure .nothing : Prog (IPCThread V) Fault Answer) :=
    .pure told_nothing
  have hstatus : ∀ err, k.told (.status err) := fun err => k.told_other _ fun _ _ h => by cases h
  cases action with
  | set setting =>
    have hassign : k.Kept (update (assigned x setting)) := .update fun _ _ hs => k.set hask hs
    refine .look fun s => .bind hassign fun _ _ => .pure (k.told_other _ ?_)
    cases setting <;> exact fun _ _ h => by cases h
  | setCallRestriction restriction => exact .bind (k.same fun _ => rfl) fun _ _ => hnothing
  | flushCommands => exact .bind h.flushCommands fun _ _ => hnothing
  | flushIfNeeded =>
    exact .bind h.flushIfNeeded fun _ _ => .pure (k.told_other _ fun _ _ h => by cases h)
  | incStrongHandle handle proxy => exact .bind (h.incStrongHandle _ _) fun _ _ => hnothing
  | decStrongHandle handle =>
    exact .bind (h.writeAndFlush rfl fun _ h => by cases h) fun _ _ => hnothing
  | incWeakHandle handle proxy => exact .bind (h.incWeakHandle _ _) fun _ _ => hnothing
  | decWeakHandle handle =>
    exact .bind (h.writeAndFlush rfl fun _ h => by cases h) fun _ _ => hnothing
  | requestDeathNotification handle proxy =>
    exact .bind (k.writes rfl fun _ h => by cases h) fun _ _ => .pure (hstatus _)
  | clearDeathNotification handle proxy =>
    exact .bind (k.writes rfl fun _ h => by cases h) fun _ _ => .pure (hstatus _)
  | transact handle code data reply flags =>
    have hreply : ∀ p, reply = some p → HandsBack k.free p := by
      rintro p rfl
      exact k.ask_transact _ _ _ _ _ hask
    refine .bind (h.transact hserves handle code data flags hreply) fun r hr => .pure ?_
    exact k.told_transacted _ _ hr
  | freeBuffer data => exact .bind (h.freeBuffer (k.ask_freeBuffer _ hask)) fun _ _ => hnothing

/-- The functions of the thread keep the family, to any depth. -/
theorem Serves.knot (hserves : k.Serves) (n : Nat) : k.Performs (knot x n) := by
  induction n with
  | zero => exact fun _ _ => .fault _
  | succ n ih => exact ih.act hserves

end Rules

end system_binder.IPCThread
