/-!
The native operations a guest can call, by number and by name.
-/

namespace DeviceVm

inductive Native where
  | exit
  | gc
  | fatalVMError
  | freeMemory
  | totalMemory
  | getTime
  | getInstructionCount
  | getStackFrameDepth
  | enableExcessiveGC
  | setMinimumHeapMode
  | getHeapHighWaterMark
  | putch
  | puterrch
  | print
  | printInt
  | getClass
  | getArrayLength
  | getAddress
  | inRam
  | arraycopy0
  | stringcopy0
  | makeEightBitString
  | makeSixteenBitString
  | primNewObject
  | primNewArray
  | primAstoreOop
  | getClassState
  | createClassState
  | setClassState
  | primGetStatic
  | primGetStaticLong
  | primPutStatic
  | primPutStaticLong
  | primPutStaticObj
  | getNewExecutionContext
  | setExecutionContext
  | setFastLockStack
  | setOutOfMemoryError
  | setAssociationHashtable
  | getAssociationQueue
  | setAssociationQueue
  | getAssociation
  | getFinalizer
  | getPersistentMemoryTable
  | setPersistentMemoryTable
  | makePersistent
  | makePersistentCopy
  | gcPersistentMemory
  | wasPersistentMemoryGCInterrupted
  | getPersistentMemorySize
  | newPersistentByteArray
  | floatToIntBits
  | doubleToLongBits
  | intBitsToFloat
  | longBitsToDouble
  | math
  deriving DecidableEq, Repr

namespace Native

def all : Array Native :=
  #[.exit, .gc, .fatalVMError, .freeMemory, .totalMemory, .getTime, .getInstructionCount,
    .getStackFrameDepth, .enableExcessiveGC, .setMinimumHeapMode, .getHeapHighWaterMark,
    .putch, .puterrch, .print, .printInt, .getClass, .getArrayLength, .getAddress, .inRam,
    .arraycopy0, .stringcopy0, .makeEightBitString, .makeSixteenBitString, .primNewObject,
    .primNewArray, .primAstoreOop, .getClassState, .createClassState, .setClassState,
    .primGetStatic, .primGetStaticLong, .primPutStatic, .primPutStaticLong,
    .primPutStaticObj, .getNewExecutionContext, .setExecutionContext, .setFastLockStack,
    .setOutOfMemoryError, .setAssociationHashtable, .getAssociationQueue,
    .setAssociationQueue, .getAssociation, .getFinalizer, .getPersistentMemoryTable,
    .setPersistentMemoryTable, .makePersistent, .makePersistentCopy, .gcPersistentMemory,
    .wasPersistentMemoryGCInterrupted, .getPersistentMemorySize, .newPersistentByteArray,
    .floatToIntBits, .doubleToLongBits, .intBitsToFloat, .longBitsToDouble, .math]

def name : Native → String
  | exit => "exit"
  | gc => "gc"
  | fatalVMError => "fatalVMError"
  | freeMemory => "freeMemory"
  | totalMemory => "totalMemory"
  | getTime => "getTime"
  | getInstructionCount => "getInstructionCount"
  | getStackFrameDepth => "getStackFrameDepth"
  | enableExcessiveGC => "enableExcessiveGC"
  | setMinimumHeapMode => "setMinimumHeapMode"
  | getHeapHighWaterMark => "getHeapHighWaterMark"
  | putch => "putch"
  | puterrch => "puterrch"
  | print => "print"
  | printInt => "printInt"
  | getClass => "getClass"
  | getArrayLength => "getArrayLength"
  | getAddress => "getAddress"
  | inRam => "inRam"
  | arraycopy0 => "arraycopy0"
  | stringcopy0 => "stringcopy0"
  | makeEightBitString => "makeEightBitString"
  | makeSixteenBitString => "makeSixteenBitString"
  | primNewObject => "primNewObject"
  | primNewArray => "primNewArray"
  | primAstoreOop => "primAstoreOop"
  | getClassState => "getClassState"
  | createClassState => "createClassState"
  | setClassState => "setClassState"
  | primGetStatic => "primGetStatic"
  | primGetStaticLong => "primGetStaticLong"
  | primPutStatic => "primPutStatic"
  | primPutStaticLong => "primPutStaticLong"
  | primPutStaticObj => "primPutStaticObj"
  | getNewExecutionContext => "getNewExecutionContext"
  | setExecutionContext => "setExecutionContext"
  | setFastLockStack => "setFastLockStack"
  | setOutOfMemoryError => "setOutOfMemoryError"
  | setAssociationHashtable => "setAssociationHashtable"
  | getAssociationQueue => "getAssociationQueue"
  | setAssociationQueue => "setAssociationQueue"
  | getAssociation => "getAssociation"
  | getFinalizer => "getFinalizer"
  | getPersistentMemoryTable => "getPersistentMemoryTable"
  | setPersistentMemoryTable => "setPersistentMemoryTable"
  | makePersistent => "makePersistent"
  | makePersistentCopy => "makePersistentCopy"
  | gcPersistentMemory => "gcPersistentMemory"
  | wasPersistentMemoryGCInterrupted => "wasPersistentMemoryGCInterrupted"
  | getPersistentMemorySize => "getPersistentMemorySize"
  | newPersistentByteArray => "newPersistentByteArray"
  | floatToIntBits => "floatToIntBits"
  | doubleToLongBits => "doubleToLongBits"
  | intBitsToFloat => "intBitsToFloat"
  | longBitsToDouble => "longBitsToDouble"
  | math => "math"

def ofNumber? (n : Nat) : Option Native :=
  all[n]?

def number? (name : String) : Option Nat :=
  all.findIdx? (·.name == name)

def number (native : Native) : UInt8 :=
  UInt8.ofNat (all.findIdx (· == native))

end Native

end DeviceVm
