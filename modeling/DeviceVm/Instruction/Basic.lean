import DeviceVm.Opcode.Mnemonic

/-!
Decoded instructions and their text.
-/

namespace DeviceVm

inductive Operand where
  | nothing
  | byte (b : UInt8)
  | int (v : Int32)
  | long (v : Int64)
  | switch (default low high : Int32)
  deriving DecidableEq, Repr

def Operand.text : Operand → String
  | nothing => ""
  | byte b => s!" {b}"
  | int v => s!" {v.toInt}"
  | long v => s!" {v.toInt}"
  | switch default low high =>
    s!" default={default.toInt} [" ++ s!"{low.toInt}..{high.toInt}" ++ "]"

structure Instruction where
  /-- Position of the first byte, that of the wide form if there is one. -/
  offset : Nat
  length : Nat
  op : Opcode
  widened : Option Opcode
  operand : Operand
  deriving DecidableEq, Repr

def Instruction.text (i : Instruction) : String :=
  let wide := match i.widened with
    | some op => "[" ++ op.mnemonic ++ "] "
    | none => ""
  wide ++ i.op.mnemonic ++ i.operand.text

end DeviceVm
