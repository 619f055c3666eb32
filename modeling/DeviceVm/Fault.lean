import DeviceVm.Text.Hex

/-!
Everything that can stop the machine. A fault is a cause; its wording is in one `message`
function per kind of cause.
-/

namespace DeviceVm

inductive FatalCause where
  | badOpcode (byte : UInt8) (addr : UInt32)
  | badWideOpcode (byte : UInt8) (addr : UInt32)
  | badLongOpcode (byte : UInt8)
  | badFloatOpcode (byte : UInt8)
  | missingStaticMethod (slot : Int) (classNumber : UInt32)
  | frameTooLarge (locals : UInt32)
  | missingInterface (receiver interface : UInt32)
  | missingVirtualMethod (slot : UInt32)
  | noOutOfMemoryObject
  | requested
  | notAString (object : UInt32)
  | stringSizes (source target : UInt32)
  | missingConstructor (slot : Int) (classNumber : UInt32)
  | noContext (thread : UInt32)
  | badMathOperation (selector : UInt32)
  | unknownNative (number : UInt8)
  | bottomFrame (chunk : UInt32)
  | noActiveFrame (chunk : UInt32)
  | noSupportClass
  | missingSupportMethod (name : String)
  | uncaught (classNumber : UInt32)
  | noThrowBytecode
  | persistentRootIntoRam (index : Int) (value : UInt32)
  | readOnlyRoot (index : Int)
  | deadAssociation (association queue : UInt32)
  | deadAssociatedObject (object association : UInt32)
  | misplacedAssociation (association hashed queue : UInt32)
  | ramTooSmallForHalves (size : UInt32)
  | ramTooSmallForSliding (size : UInt32)
  | minimumHeapUnsupported
  | noCompactionProgress (free : UInt32)
  | noPersistentRoom (size : UInt32)
  | bitVectorTooSmall (size needed : UInt32)
  | classNotPersistable (object classNumber : UInt32)
  | notPersistable (object : UInt32)
  | noRoomFor (what : String)
  deriving DecidableEq, Repr

def FatalCause.message : FatalCause → String
  | badOpcode byte addr =>
    "bad opcode 0x" ++ Hex.padded 2 byte.toNat ++ " at " ++ Hex.word addr
  | badWideOpcode byte addr =>
    "bad wide opcode 0x" ++ Hex.padded 2 byte.toNat ++ " at " ++ Hex.word addr
  | badLongOpcode byte => "bad long opcode 0x" ++ Hex.padded 2 byte.toNat
  | badFloatOpcode byte => "bad float opcode 0x" ++ Hex.padded 2 byte.toNat
  | missingStaticMethod slot classNumber =>
    s!"static method {slot} of class {classNumber} is missing"
  | frameTooLarge locals => s!"frame of {locals} locals does not fit an empty chunk"
  | missingInterface receiver interface =>
    "receiver " ++ Hex.word receiver ++ s!" does not implement interface {interface}"
  | missingVirtualMethod slot => s!"no method for virtual slot {slot}"
  | noOutOfMemoryObject => "out of memory and no OutOfMemoryError instance"
  | requested => "Native.fatalVMError()"
  | notAString object => "print of non-string object " ++ Hex.word object
  | stringSizes source target => s!"stringcopy0 between element sizes {source} and {target}"
  | missingConstructor slot classNumber =>
    s!"constructor slot {slot} of class {classNumber} is empty"
  | noContext thread => "thread " ++ Hex.word thread ++ " has no context"
  | badMathOperation selector => s!"bad math operation {selector}"
  | unknownNative number => s!"unknown native {number}"
  | bottomFrame chunk => "return from the bottom frame of context " ++ Hex.word chunk
  | noActiveFrame chunk => "stack chunk " ++ Hex.word chunk ++ " has no active frame"
  | noSupportClass => "VMExtension class is missing from ROM"
  | missingSupportMethod name => "VMExtension." ++ name ++ " is not implemented"
  | uncaught classNumber => s!"uncaught exception of class {classNumber}"
  | noThrowBytecode => "RAM segment record has no throw bytecode"
  | persistentRootIntoRam index value =>
    s!"EEPROM root {index} cannot point into RAM (" ++ Hex.word value ++ ")"
  | readOnlyRoot index => s!"ROM root {index} is read only"
  | deadAssociation association queue =>
    "association " ++ Hex.word association ++ s!" in queue {queue} is dead"
  | deadAssociatedObject object association =>
    "object " ++ Hex.word object ++ " of association " ++ Hex.word association ++ " is dead"
  | misplacedAssociation association hashed queue =>
    "association " ++ Hex.word association ++ s!" hashed to {hashed} but queued on {queue}"
  | ramTooSmallForHalves size => s!"RAM of {size} bytes is too small for two semi-spaces"
  | ramTooSmallForSliding size => s!"RAM of {size} bytes is too small for mark-compact"
  | minimumHeapUnsupported => "minimum heap mode needs the mark-compact collector"
  | noCompactionProgress free =>
    "compaction with holes made no progress at " ++ Hex.word free
  | noPersistentRoom size => s!"EEPROM of {size} bytes has no room for objects"
  | bitVectorTooSmall size needed =>
    s!"bit vector of {size} bytes cannot cover EEPROM ({needed} needed)"
  | classNotPersistable object classNumber =>
    Hex.word object ++ s!" of class {classNumber} cannot be made persistent"
  | notPersistable object => Hex.word object ++ " cannot be made persistent"
  | noRoomFor what => "no room in RAM for the " ++ what

inductive SettingsError where
  | youngPercent
  | exactWithoutEager
  | fullWithCopying
  | emptyCheckpoint
  deriving DecidableEq, Repr

def SettingsError.message : SettingsError → String
  | youngPercent => "young_percent must be between 1 and 100"
  | exactWithoutEager => "very_excessive_gc requires excessive_gc"
  | fullWithCopying => "full_gc only applies to the mark-compact collector"
  | emptyCheckpoint => "checkpoint base must not be empty"

inductive LayoutError where
  | romAtZero
  | segmentTooSmall
  | unaligned
  | overlap
  | tooLarge
  | noSupportClass
  | noSuiteTable
  deriving DecidableEq, Repr

def LayoutError.message : LayoutError → String
  | romAtZero => "ROM starts at address 0"
  | segmentTooSmall => "segment smaller than its segment record"
  | unaligned => "segment is not word aligned"
  | overlap => "segments overlap or are out of order"
  | tooLarge => "image exceeds the 24 bit address space"
  | noSupportClass => "ROM has no VMExtension class"
  | noSuiteTable => "ROM has no suite table"

inductive ImageError where
  | badMagic (found : UInt32)
  | badVersion (found : UInt32)
  | truncated (expected found : Nat)
  | layout (cause : LayoutError)
  deriving DecidableEq, Repr

def ImageError.message : ImageError → String
  | badMagic found => "bad magic number 0x" ++ Hex.padded 8 found.toNat
  | badVersion found => s!"unsupported image version {found}"
  | truncated expected found => s!"image truncated: expected {expected} bytes, found {found}"
  | layout cause => "segment layout is invalid: " ++ cause.message

inductive Fault where
  /-- A broken invariant: an access out of range or unaligned, an overflow, a failed check. -/
  | broken
  | endless
  | fatal (cause : FatalCause)
  | settings (cause : SettingsError)
  | image (cause : ImageError)
  | io
  deriving DecidableEq, Repr

def Fault.message? : Fault → Option String
  | broken | endless | io => none
  | fatal cause => some ("fatal VM error: " ++ cause.message)
  | settings cause => some ("invalid settings: " ++ cause.message)
  | image cause => some ("image error: " ++ cause.message)

/-- Faults that are reported as errors: the machine finishes what it is in the middle of. -/
def Fault.isError : Fault → Bool
  | broken | endless => false
  | fatal _ | settings _ | image _ | io => true

@[inline] def require (ok : Bool) : Except Fault Unit :=
  if ok then .ok () else .error .broken

end DeviceVm
