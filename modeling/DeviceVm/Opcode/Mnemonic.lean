import DeviceVm.Opcode.Basic

/-!
Mnemonics. The mnemonic of an opcode spells out its family and its choices; the display name
joins the words of the mnemonic, each with a capital.
-/

namespace DeviceVm

namespace Mnemonic

def displayName (mnemonic : String) : String :=
  String.join ((mnemonic.splitOn "_").map String.capitalize)

end Mnemonic

def Relation.word : Relation → String
  | .eq => "eq"
  | .ne => "ne"
  | .lt => "lt"
  | .le => "le"
  | .gt => "gt"
  | .ge => "ge"

def BranchTest.mnemonic : BranchTest → String
  | .zero r => "if" ++ r.word
  | .pair r => "if_icmp" ++ r.word
  | .always => "goto"

def IntOp.mnemonic : IntOp → String
  | .add => "iadd"
  | .sub => "isub"
  | .and => "iand"
  | .or => "ior"
  | .xor => "ixor"
  | .shl => "ishl"
  | .shr => "ishr"
  | .ushr => "iushr"
  | .mul => "imul"
  | .div => "idiv"
  | .rem => "irem"

def NarrowTo.letter : NarrowTo → String
  | .byte => "b"
  | .short => "s"
  | .char => "c"

def LoadWidth.suffix : LoadWidth → String
  | .word => ""
  | .byte => "_b"
  | .short => "_s"
  | .char => "_c"
  | .long => "_i2"

def StoreWidth.suffix : StoreWidth → String
  | .word => ""
  | .byte => "_b"
  | .short => "_s"
  | .ref => "_o"
  | .long => "_i2"

def StaticWidth.suffix : StaticWidth → String
  | .word => ""
  | .ref => "_o"
  | .long => "_i2"

def SearchWidth.suffix : SearchWidth → String
  | .word => ""
  | .byte => "_b"
  | .short => "_s"
  | .char => "_c"

def InvokeKind.word : InvokeKind → String
  | .init => "init"
  | .interface => "interface"
  | .static => "static"
  | .super => "super"
  | .virtual => "virtual"
  | .native => "native"

def ResultSize.digit : ResultSize → String
  | .none => ""
  | .one => "1"
  | .two => "2"

def MonitorAction.word : MonitorAction → String
  | .enter => "enter"
  | .exit => "exit"

def Subject.mark (current : String) : Subject → String
  | .operand => ""
  | .current => current

namespace Opcode

def mnemonic : Opcode → String
  | const n => "const_" ++ toString n.val
  | object n => "object_" ++ toString n.val
  | classRef n => "class_" ++ toString n.val
  | load n => "load_" ++ toString n.val
  | store n => "store_" ++ toString n.val
  | wide n => "wide_" ++ toString n.val
  | extend n => "extend_" ++ toString n.val
  | wideHalf => "wide_half"
  | wideFull => "wide_full"
  | longOp => "longOp"
  | floatOp => "floatOp"
  | constM1 => "const_m1"
  | constNull => "const_null"
  | int op => op.mnemonic
  | ret size => "return" ++ size.digit
  | throwTop => "throw"
  | bpt => "bpt"
  | nop => "nop"
  | pop => "pop"
  | neg => "neg"
  | narrow kind => "i2" ++ kind.letter
  | lookup width => "lookup" ++ width.suffix
  | tableswitch => "tableswitch"
  | stableswitch => "stableswitch"
  | stableswitchPad => "stableswitch_pad"
  | monitor action subject => subject.mark "class_" ++ "monitor" ++ action.word
  | arraylength => "arraylength"
  | clinit subject => subject.mark "class_" ++ "clinit"
  | newobject => "newobject"
  | newarray => "newarray"
  | newdimension => "newdimension"
  | instanceOf => "instanceof"
  | checkcast => "checkcast"
  | compare r => r.word
  | aload width => "aload" ++ width.suffix
  | astore width => "astore" ++ width.suffix
  | constByte => "const_byte"
  | constShort => "const_short"
  | constChar => "const_char"
  | constInt => "const_int"
  | constLong => "const_long"
  | constFloat => "const_float"
  | constDouble => "const_double"
  | objectAt => "object"
  | classAt => "class"
  | loadAt => "load"
  | storeAt => "store"
  | extendBy => "extend"
  | inc => "inc"
  | dec => "dec"
  | loadLong => "load_i2"
  | storeLong => "store_i2"
  | invoke kind size => "invoke" ++ kind.word ++ size.digit
  | getstatic subject width => subject.mark "class_" ++ "getstatic" ++ width.suffix
  | putstatic subject width => subject.mark "class_" ++ "putstatic" ++ width.suffix
  | getfield subject width => subject.mark "this_" ++ "getfield" ++ width.suffix
  | putfield subject width => subject.mark "this_" ++ "putfield" ++ width.suffix
  | branch test => test.mnemonic
  | methodid => "methodid"

def name (op : Opcode) : String :=
  Mnemonic.displayName op.mnemonic

end Opcode

def LongOp.mnemonic : LongOp → String
  | .add => "ladd"
  | .sub => "lsub"
  | .mul => "lmul"
  | .div => "ldiv"
  | .rem => "lrem"
  | .and => "land"
  | .or => "lor"
  | .xor => "lxor"
  | .neg => "lneg"
  | .shl => "lshl"
  | .shr => "lshr"
  | .ushr => "lushr"
  | .cmp => "lcmp"
  | .toInt => "l2i"
  | .ofInt => "i2l"

def LongOp.name (op : LongOp) : String :=
  Mnemonic.displayName op.mnemonic

def FloatArith.word : FloatArith → String
  | .add => "add"
  | .sub => "sub"
  | .mul => "mul"
  | .div => "div"
  | .rem => "rem"

def Unordered.letter : Unordered → String
  | .greater => "g"
  | .less => "l"

def FloatOp.mnemonic : FloatOp → String
  | .single op => "f" ++ op.word
  | .singleNeg => "fneg"
  | .singleCmp nan => "fcmp" ++ nan.letter
  | .double op => "d" ++ op.word
  | .doubleNeg => "dneg"
  | .doubleCmp nan => "dcmp" ++ nan.letter
  | .intToSingle => "i2f"
  | .longToSingle => "l2f"
  | .singleToInt => "f2i"
  | .singleToLong => "f2l"
  | .intToDouble => "i2d"
  | .longToDouble => "l2d"
  | .singleToDouble => "f2d"
  | .doubleToInt => "d2i"
  | .doubleToLong => "d2l"
  | .doubleToSingle => "d2f"

def FloatOp.name (op : FloatOp) : String :=
  Mnemonic.displayName op.mnemonic

end DeviceVm
