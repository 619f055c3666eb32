/-!
Work the interpreter hands to static methods of the support class. The order of the calls is
the order of their method slots.
-/

namespace DeviceVm

inductive SupportCall where
  | yield
  | nullPointerException
  | arrayBoundsException
  | arithmeticException
  | illegalStoreException
  | astoreOop
  | getStatic
  | getStaticLong
  | putStatic
  | putStaticLong
  | putStaticObj
  | initializeClass
  | monitorEnter
  | monitorExit
  | instanceOf
  | checkcast
  | newArray
  | newDimension
  | registerForFinalization
  | breakpoint
  | callrun
  | vmstart
  deriving DecidableEq, Repr

namespace SupportCall

def all : Array SupportCall :=
  #[.yield, .nullPointerException, .arrayBoundsException, .arithmeticException,
    .illegalStoreException, .astoreOop, .getStatic, .getStaticLong, .putStatic,
    .putStaticLong, .putStaticObj, .initializeClass, .monitorEnter, .monitorExit,
    .instanceOf, .checkcast, .newArray, .newDimension, .registerForFinalization, .breakpoint,
    .callrun, .vmstart]

def name : SupportCall → String
  | yield => "yield"
  | nullPointerException => "nullPointerException"
  | arrayBoundsException => "arrayBoundsException"
  | arithmeticException => "arithmeticException"
  | illegalStoreException => "illegalStoreException"
  | astoreOop => "astoreOop"
  | getStatic => "getStatic"
  | getStaticLong => "getStaticLong"
  | putStatic => "putStatic"
  | putStaticLong => "putStaticLong"
  | putStaticObj => "putStaticObj"
  | initializeClass => "initializeClass"
  | monitorEnter => "monitorEnter"
  | monitorExit => "monitorExit"
  | instanceOf => "instanceOf"
  | checkcast => "checkcast"
  | newArray => "newArray"
  | newDimension => "newDimension"
  | registerForFinalization => "registerForFinalization"
  | breakpoint => "breakpoint"
  | callrun => "callrun"
  | vmstart => "vmstart"

def slot (call : SupportCall) : Nat :=
  call.ctorIdx

def ofName? (name : String) : Option SupportCall :=
  all.find? (·.name == name)

end SupportCall

end DeviceVm
