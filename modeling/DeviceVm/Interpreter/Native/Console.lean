import DeviceVm.Interpreter.Machine
import DeviceVm.Text.Characters

/-!
Natives that print.
-/

namespace DeviceVm

namespace Exec

def printChar (stream : OutputStream) : Exec Step := do
  let code ← pop
  print stream (Characters.ofCode code.toNat).toString
  return .proceed

def bytesOf (string : UInt32) : (n : Nat) → (i : Int32) → Read (List UInt8)
  | 0, _ => return []
  | n + 1, i => do
    let b ← Memory.byte string i
    return b :: (← bytesOf string n (i + 1))

def unitsOf (string : UInt32) : (n : Nat) → (i : Int32) → Read (List UInt16)
  | 0, _ => return []
  | n + 1, i => do
    let unit ← Memory.half string i
    return unit :: (← unitsOf string n (i + 1))

def stringText (string : UInt32) : Run String := do
  let k ← Header.classOf string
  let length ← Header.elementCount string
  match (← Class.arrayElementSize k).toNat with
  | 1 => return String.ofList ((← bytesOf string length.toNat 0).map (Characters.ofCode ·.toNat))
  | 2 => return String.ofList (Characters.ofUnits (← unitsOf string length.toNat 0))
  | _ => Store.fatal (.notAString string)

def printString : Exec Step := do
  let string ← pop
  let text ← if string == 0 then pure "null" else stringText string
  print .standard text
  return .proceed

def printInt : Exec Step := do
  let v ← popInt
  print .standard (toString v.toInt)
  return .proceed

end Exec

end DeviceVm
