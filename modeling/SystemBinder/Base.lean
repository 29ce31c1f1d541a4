-- How a binder process stops, and the result codes that its functions return.
import SystemBinder.Prog

namespace system_binder

/-- What ends a call early. `logFatal` is `LOG_FATAL` or `LOG_ASSERT`, which exit the
process. The next three are what C leaves undefined. `tooDeep` is a bound of the model
on nested calls and no behaviour of the source, and `inCall` marks what went wrong inside a
function that was called. -/
inductive Fault
  | logFatal (message : String)
  | storeOutside
  | loadOutside
  | nullPointer
  | tooDeep
  | inCall (fault : Fault)
deriving DecidableEq, Repr

/-- Nothing is asked of a program that stops. -/
abbrev anyFault : Fault → Prop := fun _ => True

/-- `SIZE_MAX` of a 64-bit process. -/
def SIZE_MAX : Nat := 2 ^ 64 - 1

def INT32_MAX : Nat := 2 ^ 31 - 1

def INT32_MIN : Int := -2 ^ 31

/-- `long` -/
abbrev Long := BitVec 64

/-! ## Status codes -/

def ENOENT : Int := 2
def ENOMEM : Int := 12
def EEXIST : Int := 17
def EBADF : Int := 9
def ECONNREFUSED : Int := 111

def STATUS_OK : Int := 0
def STATUS_NO_MEMORY : Int := -12
def STATUS_INVALID_OPERATION : Int := -38
def STATUS_BAD_VALUE : Int := -22
def STATUS_BAD_TYPE : Int := INT32_MIN + 1
def STATUS_NAME_NOT_FOUND : Int := -2
def STATUS_NOT_ENOUGH_DATA : Int := -61
def STATUS_UNKNOWN_ERROR : Int := INT32_MIN
def STATUS_UNEXPECTED_NULL : Int := INT32_MIN + 8
def STATUS_UNKNOWN_TRANSACTION : Int := -74
def STATUS_TIMED_OUT : Int := -110

end system_binder
