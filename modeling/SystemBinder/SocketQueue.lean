-- The socket queue: two loops that move an array over a byte stream, whatever part of it the
-- kernel takes at a time. The stream keeps the order, and the other end has its own batches.
import SystemBinder.Base

open prog

namespace system_binder

/-! ## Items in memory -/

/-- How the items of a type lie in memory: the same number of bytes for each, which give the
item back. -/
structure Layout (T : Type) where
  sizeof : Nat
  bytes : T → List UInt8
  value : List UInt8 → T
  sizeof_pos : 0 < sizeof
  length_bytes : ∀ t, (bytes t).length = sizeof
  value_bytes : ∀ t, value (bytes t) = t

/-- No array is larger, so an `ssize_t` counts its bytes. -/
def PTRDIFF_MAX : Nat := 2 ^ 63 - 1

def EWOULDBLOCK : Int := 11

namespace Layout

variable {T : Type} (L : Layout T)

/-- The bytes of an array. -/
def array (items : List T) : List UInt8 := items.flatMap L.bytes

/-- The first items of an array. -/
def items : Nat → List UInt8 → List T
  | 0, _ => []
  | n + 1, memory => L.value (memory.take L.sizeof) :: items n (memory.drop L.sizeof)

end Layout

namespace SocketQueueBase

variable {T : Type} {L : Layout T}

/-- What `write` is called with: an array that lies in memory. -/
structure Source (L : Layout T) where
  data : List T
  inMemory : data.length * L.sizeof ≤ PTRDIFF_MAX

/-- What `read` is called with: memory for an array, with whatever is in it. -/
structure Target (L : Layout T) where
  nMessages : Nat
  data : List UInt8
  length_data : data.length = nMessages * L.sizeof
  inMemory : nMessages * L.sizeof ≤ PTRDIFF_MAX

/-! ## One call -/

/-- What the kernel answers to `::write` or `::read`. -/
inductive Answer
  | moved (count : Nat)
  | ends
  | fails (errno : Int)
deriving DecidableEq, Repr

namespace Answer

def ret : Answer → Int
  | moved count => count
  | ends => 0
  | fails _ => -1

/-- Only a failure sets `errno`. -/
def errno (before : Int) : Answer → Int
  | fails errno => errno
  | _ => before

def count : Answer → Nat
  | moved count => count
  | _ => 0

/-- A transfer moves something, and no more than `limit`. -/
def Within (limit : Nat) : Answer → Prop
  | moved count => 0 < count ∧ count ≤ limit
  | _ => True

instance (limit : Nat) : (answer : Answer) → Decidable (answer.Within limit)
  | moved count => inferInstanceAs (Decidable (0 < count ∧ count ≤ limit))
  | ends => isTrue trivial
  | fails _ => isTrue trivial

end Answer

/-- The variables of `write` and of `read`, the memory behind `data`, and the bytes that the
kernel moved for the call. -/
structure Call where
  remain : Nat
  offset : Int
  result : Bool
  errno : Int
  data : List UInt8
  moved : List UInt8
deriving DecidableEq, Repr

namespace Call

def start (L : Layout T) (nMessages : Nat) (data : List UInt8) : Call where
  remain := nMessages * L.sizeof % (SIZE_MAX + 1)
  offset := 0
  result := true
  errno := 0
  data := data
  moved := []

/-- The bytes at `data + offset` that `::write` takes. -/
def taken (c : Call) (answer : Answer) : List UInt8 :=
  (c.data.drop c.offset.toNat).take answer.count

/-- `::read` puts bytes at `data + offset`. -/
def put (c : Call) (bytes : List UInt8) : Call :=
  { c with
    data := c.data.take c.offset.toNat ++ bytes ++ c.data.drop (c.offset.toNat + bytes.length) }

/-- What the loop does with the answer. The second value is false where it breaks. -/
def turn (c : Call) (answer : Answer) : Call × Bool :=
  let c := { c with errno := answer.errno c.errno }
  if c.errno = EWOULDBLOCK then ({ c with result := false }, false)
  else if answer.ret ≤ 0 then ({ c with result := false }, false)
  else ({ c with offset := c.offset + answer.ret, remain := c.remain - answer.ret.toNat }, true)

end Call

/-! ## The two ends -/

/-- One end: the call that holds the mutex, and the calls that returned, each with what it was
called with. -/
structure End (α : Type) where
  running : Option (α × Call)
  returned : List (α × Call)

namespace End

variable {α : Type}

/-- The head of the loop: a call with nothing left to move returns. -/
def loop (e : End α) (args : α) (c : Call) : End α :=
  if c.remain ≠ 0 then { e with running := some (args, c) }
  else { running := none, returned := e.returned ++ [(args, c)] }

/-- After an answer the loop goes on or breaks. -/
def next (e : End α) (args : α) (c : Call) (answer : Answer) : End α :=
  let (c, goesOn) := c.turn answer
  if goesOn then e.loop args c
  else { running := none, returned := e.returned ++ [(args, c)] }

end End

/-- A writer and a reader, and the bytes on their way. -/
structure Queue (L : Layout T) where
  writer : End (Source L)
  reader : End (Target L)
  stream : List UInt8

/-- What happens at the queue: a call begins where none runs, or the kernel answers the system
call of the loop that runs. -/
inductive Event (L : Layout T)
  | write (data : Source L)
  | wrote (answer : Answer)
  | read (data : Target L)
  | received (answer : Answer)

def write (q : Queue L) (data : Source L) : Queue L :=
  { q with
    writer := q.writer.loop data (Call.start L data.data.length (L.array data.data)) }

def wrote (q : Queue L) (data : Source L) (c : Call) (answer : Answer) : Queue L :=
  let bytes := c.taken answer
  { q with
    writer := q.writer.next data { c with moved := c.moved ++ bytes } answer
    stream := q.stream ++ bytes }

def read (q : Queue L) (data : Target L) : Queue L :=
  { q with reader := q.reader.loop data (Call.start L data.nMessages data.data) }

def received (q : Queue L) (data : Target L) (c : Call) (answer : Answer) : Queue L :=
  let bytes := q.stream.take answer.count
  { q with
    reader := q.reader.next data { c.put bytes with moved := c.moved ++ bytes } answer
    stream := q.stream.drop answer.count }

/-- The kernel writes no more than it is given, and reads no more than there is room for and
than is on its way. -/
def step (e : Event L) (q : Queue L) : Option (Queue L) :=
  match e, q.writer.running, q.reader.running with
  | .write data, none, _ => some (write q data)
  | .wrote answer, some (data, c), _ =>
    if answer.Within c.remain then some (wrote q data c answer) else none
  | .read data, _, none => some (read q data)
  | .received answer, _, some (data, c) =>
    if answer.Within (min c.remain q.stream.length) then some (received q data c answer) else none
  | _, _, _ => none

/-- A queue before its first call. -/
def Queue.start (L : Layout T) : Queue L where
  writer := { running := none, returned := [] }
  reader := { running := none, returned := [] }
  stream := []

end SocketQueueBase

end system_binder
