/-!
Opcodes and their one-byte encoding. Families of opcodes that differ only in an operand width, a
comparison or a result size are single constructors over that choice, so every value of `Opcode`
is an opcode and every byte but the last stands for exactly one of them.
-/

namespace DeviceVm

inductive Relation where
  | eq | ne | lt | le | gt | ge
  deriving DecidableEq, Repr

def Relation.holds : Relation → Int32 → Int32 → Bool
  | .eq, a, b => a == b
  | .ne, a, b => a != b
  | .lt, a, b => a < b
  | .le, a, b => a ≤ b
  | .gt, a, b => a > b
  | .ge, a, b => a ≥ b

inductive BranchTest where
  | zero (r : Relation)
  | pair (r : Relation)
  | always
  deriving DecidableEq, Repr

inductive IntOp where
  | add | sub | and | or | xor | shl | shr | ushr | mul | div | rem
  deriving DecidableEq, Repr

inductive NarrowTo where
  | byte | short | char
  deriving DecidableEq, Repr

inductive LoadWidth where
  | word | byte | short | char | long
  deriving DecidableEq, Repr

inductive StoreWidth where
  | word | byte | short | ref | long
  deriving DecidableEq, Repr

inductive StaticWidth where
  | word | ref | long
  deriving DecidableEq, Repr

inductive SearchWidth where
  | word | byte | short | char
  deriving DecidableEq, Repr

inductive InvokeKind where
  | init | interface | static | super | virtual | native
  deriving DecidableEq, Repr

inductive ResultSize where
  | none | one | two
  deriving DecidableEq, Repr

inductive Subject where
  | operand
  | current
  deriving DecidableEq, Repr

inductive MonitorAction where
  | enter | exit
  deriving DecidableEq, Repr

/-- One interpreter instruction, without its inline operand. The seven families over `Fin 16`
carry a small operand in the opcode itself. -/
inductive Opcode where
  | const (n : Fin 16)
  | object (n : Fin 16)
  | classRef (n : Fin 16)
  | load (n : Fin 16)
  | store (n : Fin 16)
  | wide (n : Fin 16)
  | extend (n : Fin 16)
  | wideHalf
  | wideFull
  | longOp
  | floatOp
  | constM1
  | constNull
  | int (op : IntOp)
  | ret (size : ResultSize)
  | throwTop
  | bpt
  | nop
  | pop
  | neg
  | narrow (kind : NarrowTo)
  | lookup (width : SearchWidth)
  | tableswitch
  | stableswitch
  | stableswitchPad
  | monitor (action : MonitorAction) (subject : Subject)
  | arraylength
  | clinit (subject : Subject)
  | newobject
  | newarray
  | newdimension
  | instanceOf
  | checkcast
  | compare (r : Relation)
  | aload (width : LoadWidth)
  | astore (width : StoreWidth)
  | constByte
  | constShort
  | constChar
  | constInt
  | constLong
  | constFloat
  | constDouble
  | objectAt
  | classAt
  | loadAt
  | storeAt
  | extendBy
  | inc
  | dec
  | loadLong
  | storeLong
  | invoke (kind : InvokeKind) (size : ResultSize)
  | getstatic (subject : Subject) (width : StaticWidth)
  | putstatic (subject : Subject) (width : StaticWidth)
  | getfield (subject : Subject) (width : LoadWidth)
  | putfield (subject : Subject) (width : StoreWidth)
  | branch (test : BranchTest)
  | methodid
  deriving DecidableEq, Repr

namespace Opcode

def smallForms (family : Fin 16 → Opcode) : List Opcode :=
  (List.finRange 16).map family

def table : Array Opcode :=
  (smallForms const ++ smallForms object ++ smallForms classRef ++ smallForms load ++
    smallForms store ++ smallForms wide ++ smallForms extend ++
    [wideHalf, wideFull, longOp, floatOp, constM1, constNull,
      int .add, int .sub, int .and, int .or, int .xor, int .shl, int .shr, int .ushr,
      int .mul, int .div, int .rem,
      ret .none, throwTop, bpt, nop, pop, neg,
      narrow .byte, narrow .short, narrow .char,
      lookup .word, tableswitch, stableswitch,
      monitor .enter .operand, monitor .exit .operand,
      monitor .enter .current, monitor .exit .current,
      arraylength, clinit .operand, newarray, newdimension, instanceOf, checkcast,
      compare .eq, compare .lt, compare .le, compare .ne, compare .gt, compare .ge,
      aload .word, astore .word,
      constByte, constShort, constChar, constInt, constLong, constFloat, constDouble,
      objectAt, classAt, loadAt, storeAt, extendBy, inc, dec,
      invoke .init .none, invoke .interface .none, invoke .static .none,
      invoke .super .none, invoke .virtual .none, invoke .native .none,
      getstatic .operand .word, putstatic .operand .word,
      getstatic .current .word, putstatic .current .word,
      getfield .operand .word, putfield .operand .word,
      getfield .current .word, putfield .current .word,
      branch (.zero .eq), branch (.zero .ne), branch (.zero .lt),
      branch (.zero .le), branch (.zero .gt), branch (.zero .ge),
      branch (.pair .eq), branch (.pair .ne), branch (.pair .lt),
      branch (.pair .le), branch (.pair .gt), branch (.pair .ge),
      branch .always, methodid,
      invoke .init .one, invoke .interface .one, invoke .static .one,
      invoke .super .one, invoke .virtual .one, invoke .native .one,
      invoke .init .two, invoke .interface .two, invoke .static .two,
      invoke .super .two, invoke .virtual .two, invoke .native .two,
      lookup .byte, lookup .short, lookup .char,
      newobject, clinit .current, ret .one, ret .two,
      stableswitchPad, loadLong, storeLong,
      aload .byte, aload .short, aload .char, aload .long,
      astore .byte, astore .short, astore .ref, astore .long,
      getstatic .operand .ref, getstatic .operand .long,
      getstatic .current .ref, getstatic .current .long,
      putstatic .operand .ref, putstatic .operand .long,
      putstatic .current .ref, putstatic .current .long,
      getfield .operand .byte, getfield .operand .short,
      getfield .operand .char, getfield .operand .long,
      putfield .operand .byte, putfield .operand .short,
      putfield .operand .ref, putfield .operand .long,
      getfield .current .byte, getfield .current .short,
      getfield .current .char, getfield .current .long,
      putfield .current .byte, putfield .current .short,
      putfield .current .ref, putfield .current .long]).toArray

def ofByte? (b : UInt8) : Option Opcode :=
  table[b.toNat]?

/-- An opcode is encoded as its place in the table. -/
def toByte (o : Opcode) : UInt8 :=
  UInt8.ofNat (table.toList.idxOf o)

def isBranch : Opcode → Bool
  | branch _ => true
  | _ => false

def acceptsWide : Opcode → Bool
  | objectAt | classAt | branch _ => true
  | _ => false

def smallFormBase? : Opcode → Option Opcode
  | const _ => some (const 0)
  | object _ => some (object 0)
  | classRef _ => some (classRef 0)
  | load _ => some (load 0)
  | store _ => some (store 0)
  | wide _ => some (wide 0)
  | extend _ => some (extend 0)
  | _ => none

inductive OperandShape where
  | nothing
  | byte
  | int8
  | int16
  | char16
  | int32
  | int64
  | halfSwitch (padded : Bool)
  | wordSwitch
  deriving DecidableEq, Repr

def operandShape : Opcode → OperandShape
  | constByte | branch _ => .int8
  | constShort => .int16
  | constChar => .char16
  | constInt | constFloat | methodid => .int32
  | constLong | constDouble => .int64
  | stableswitch => .halfSwitch false
  | stableswitchPad => .halfSwitch true
  | tableswitch => .wordSwitch
  | objectAt | classAt | loadAt | storeAt | extendBy | inc | dec | loadLong | storeLong
  | longOp | floatOp | invoke _ _ | getstatic _ _ | putstatic _ _ | getfield _ _
  | putfield _ _ => .byte
  | _ => .nothing

end Opcode

inductive LongOp where
  | add | sub | mul | div | rem | and | or | xor | neg | shl | shr | ushr | cmp | toInt | ofInt
  deriving DecidableEq, Repr

def LongOp.table : Array LongOp :=
  #[.add, .sub, .mul, .div, .rem, .and, .or, .xor, .neg, .shl, .shr, .ushr, .cmp, .toInt, .ofInt]

def LongOp.ofByte? (b : UInt8) : Option LongOp :=
  LongOp.table[b.toNat]?

def LongOp.toByte (o : LongOp) : UInt8 :=
  UInt8.ofNat (table.toList.idxOf o)

/-- The result of a float comparison when an operand is not a number. -/
inductive Unordered where
  | greater | less
  deriving DecidableEq, Repr

inductive FloatArith where
  | add | sub | mul | div | rem
  deriving DecidableEq, Repr

inductive FloatOp where
  | single (op : FloatArith)
  | singleNeg
  | singleCmp (nan : Unordered)
  | double (op : FloatArith)
  | doubleNeg
  | doubleCmp (nan : Unordered)
  | intToSingle
  | longToSingle
  | singleToInt
  | singleToLong
  | intToDouble
  | longToDouble
  | singleToDouble
  | doubleToInt
  | doubleToLong
  | doubleToSingle
  deriving DecidableEq, Repr

def FloatOp.table : Array FloatOp :=
  #[.single .add, .single .sub, .single .mul, .single .div, .single .rem, .singleNeg,
    .singleCmp .greater, .singleCmp .less,
    .double .add, .double .sub, .double .mul, .double .div, .double .rem, .doubleNeg,
    .doubleCmp .greater, .doubleCmp .less,
    .intToSingle, .longToSingle, .singleToInt, .singleToLong,
    .intToDouble, .longToDouble, .singleToDouble, .doubleToInt, .doubleToLong, .doubleToSingle]

def FloatOp.ofByte? (b : UInt8) : Option FloatOp :=
  FloatOp.table[b.toNat]?

def FloatOp.toByte (o : FloatOp) : UInt8 :=
  UInt8.ofNat (table.toList.idxOf o)

end DeviceVm
