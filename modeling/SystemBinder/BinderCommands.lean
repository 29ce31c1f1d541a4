-- The commands that a thread writes for the driver, and those that the driver sends to a thread.
import SystemBinder.Base
import SystemBinder.Memory

open memory

namespace system_binder

def STATUS_DEAD_OBJECT : Int := -32

/-- `struct binder_transaction_data`. The target is a union: its low half is the handle. -/
structure TransactionData where
  target : BitVec 64
  cookie : BitVec 64
  code : BitVec 32
  flags : BitVec 32
  sender_pid : BitVec 32
  sender_euid : BitVec 32
  data_size : Nat
  offsets_size : Nat
  buffer : Nat
  offsets : Nat
deriving DecidableEq, Repr

/-- What the thread writes to `mOut`. -/
inductive OutCommand
  | BC_TRANSACTION (tr : TransactionData)
  | BC_REPLY (tr : TransactionData)
  | BC_ACQUIRE_RESULT (success : Bool)
  | BC_FREE_BUFFER (buffer : Nat)
  | BC_INCREFS (handle : BitVec 32)
  | BC_ACQUIRE (handle : BitVec 32)
  | BC_RELEASE (handle : BitVec 32)
  | BC_DECREFS (handle : BitVec 32)
  | BC_INCREFS_DONE (refs obj : BitVec 64)
  | BC_ACQUIRE_DONE (refs obj : BitVec 64)
  | BC_REGISTER_LOOPER
  | BC_ENTER_LOOPER
  | BC_EXIT_LOOPER
  | BC_REQUEST_DEATH_NOTIFICATION (handle : BitVec 32) (proxy : BitVec 64)
  | BC_CLEAR_DEATH_NOTIFICATION (handle : BitVec 32) (proxy : BitVec 64)
  | BC_DEAD_BINDER_DONE (proxy : BitVec 64)
deriving DecidableEq, Repr

/-- What comes with a transaction or a reply: its data, and the memory that they lead to. -/
structure Delivery where
  tr : TransactionData
  data : Block UInt8
  objects : Block Nat
  data_address : data.address = tr.buffer
  objects_address : objects.address = tr.offsets
deriving DecidableEq, Repr

/-- What the driver leaves in `mIn`, with what is read after it. -/
inductive ReturnCommand
  | BR_ERROR (result : Int)
  | BR_OK
  | BR_TRANSACTION_SEC_CTX (d : Delivery)
  | BR_TRANSACTION (d : Delivery)
  | BR_REPLY (d : Delivery)
  | BR_ACQUIRE_RESULT (result : Int)
  | BR_DEAD_REPLY
  | BR_TRANSACTION_COMPLETE
  | BR_INCREFS (refs obj : BitVec 64)
  | BR_ACQUIRE (refs obj : BitVec 64)
  | BR_RELEASE (refs obj : BitVec 64)
  | BR_DECREFS (refs obj : BitVec 64)
  | BR_ATTEMPT_ACQUIRE (refs obj : BitVec 64)
  | BR_NOOP
  | BR_SPAWN_LOOPER
  | BR_FINISHED
  | BR_DEAD_BINDER (proxy : BitVec 64)
  | BR_CLEAR_DEATH_NOTIFICATION_DONE (proxy : BitVec 64)
  | BR_FAILED_REPLY
  | BR_FROZEN_REPLY
  | BR_ONEWAY_SPAM_SUSPECT
  | other (cmd : BitVec 32)
deriving DecidableEq, Repr

end system_binder
