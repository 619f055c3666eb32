/-!
Characters of the guest. A code that is no character, such as half of a surrogate pair, is shown
as the replacement character.
-/

namespace DeviceVm.Characters

def replacement : Char := Char.ofNat 0xfffd

def ofCode (code : Nat) : Char :=
  if code.isValidChar then Char.ofNat code else replacement

def isHigh (unit : UInt16) : Bool := 0xd800 ≤ unit && unit ≤ 0xdbff

def isLow (unit : UInt16) : Bool := 0xdc00 ≤ unit && unit ≤ 0xdfff

def ofPair (high low : UInt16) : Char :=
  ofCode (0x10000 + (high.toNat - 0xd800) * 0x400 + (low.toNat - 0xdc00))

def ofUnits : List UInt16 → List Char
  | [] => []
  | [unit] => [ofCode unit.toNat]
  | high :: low :: rest =>
    if isHigh high && isLow low then ofPair high low :: ofUnits rest
    else ofCode high.toNat :: ofUnits (low :: rest)

end DeviceVm.Characters
