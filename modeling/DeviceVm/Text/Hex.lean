/-!
Hexadecimal text of numbers and bytes. It is written in lower case and read in either case.
-/

namespace DeviceVm.Hex

def digit (n : Nat) : Char :=
  Nat.digitChar (n % 16)

def digits (n : Nat) : String :=
  String.ofList (Nat.toDigits 16 n)

def padded (width n : Nat) : String :=
  let text := digits n
  String.ofList (List.replicate (width - text.length) '0') ++ text

def number (n : Nat) : String :=
  "0x" ++ digits n

def word (w : UInt32) : String :=
  number w.toNat

def bytes (b : ByteArray) : String :=
  b.foldl (fun text x => (text.push (digit (x.toNat / 16))).push (digit x.toNat)) ""

def value (c : Char) : Nat :=
  if c.isDigit then c.toNat - '0'.toNat
  else if 'a' ≤ c && c ≤ 'f' then c.toNat - 'a'.toNat + 10
  else if 'A' ≤ c && c ≤ 'F' then c.toNat - 'A'.toNat + 10
  else 0

def pushPairs (b : ByteArray) : List Char → ByteArray
  | high :: low :: rest => pushPairs (b.push (16 * value high + value low).toUInt8) rest
  | _ => b

def toBytes (text : String) : ByteArray :=
  pushPairs .empty text.toList

def toNat (digits : List Char) : Nat :=
  digits.foldl (fun n c => 16 * n + value c) 0

end DeviceVm.Hex
