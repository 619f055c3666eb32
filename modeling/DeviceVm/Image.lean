import DeviceVm.Store.Basic

/-!
Images: a store as bytes. An image is a record of eight words and the bytes of memory from the
start of read-only memory to the end of RAM. The record is in the byte order of the memory, which
the first word tells.
-/

namespace DeviceVm

namespace Image

open Word

def magic : UInt32 := 0x03021957

def reversedMagic : UInt32 := 0x57190203

def version : UInt32 := 100

def recordWords : Nat := 8

def wordBytes (order : ByteOrder) (v : UInt32) : ByteArray :=
  ((Memory.blank 4 order).pokeWord 0 v).bytes

def write (s : Store) : Except Fault ByteArray := do
  let record : List UInt32 :=
    [magic, version, s.rom.start, s.rom.size, s.eeprom.start, s.eeprom.size, s.ram.start,
      s.ram.size]
  let header := record.foldl (fun bytes v => bytes ++ wordBytes s.mem.order v) .empty
  let length ← minus (← s.ram.stop) s.rom.start
  return header ++ (← Memory.slice s.rom.start length s.mem)

def checkLayout (rom eeprom ram : Region) : Except Fault Unit := do
  let refuse (cause : LayoutError) : Except Fault Unit := throw (.image (.layout cause))
  let regions := [rom, eeprom, ram]
  if rom.start == 0 then refuse .romAtZero
  if regions.any (·.size < SegmentRecord.bytes) then refuse .segmentTooSmall
  if regions.any fun r => r.start % 4 != 0 || r.size % 4 != 0 then refuse .unaligned
  if (← rom.stop) > eeprom.start then refuse .overlap
  if (← eeprom.stop) > ram.start then refuse .overlap
  if (← ram.stop) > Header.classMask then refuse .tooLarge

def orderOf (found : UInt32) : Except Fault ByteOrder :=
  if found == magic then .ok .big
  else if found == reversedMagic then .ok .little
  else .error (.image (.badMagic found))

def wordAt (bytes : ByteArray) (order : ByteOrder) (i : Nat) : Except Fault UInt32 :=
  if 4 * i + 4 ≤ bytes.size then .ok (Memory.peekWord { bytes, order } (4 * i))
  else .error .io

def read (bytes : ByteArray) (settings : Settings) (log : Log) : Except Fault Store := do
  let order ← orderOf (← wordAt bytes .big 0)
  let record ← (List.range recordWords).mapM (wordAt bytes order)
  let word (i : Nat) : UInt32 := record.getD i 0
  if word 1 != version then throw (.image (.badVersion (word 1)))
  let rom : Region := { start := word 2, size := word 3 }
  let eeprom : Region := { start := word 4, size := word 5 }
  let ram : Region := { start := word 6, size := word 7 }
  checkLayout rom eeprom ram
  let expected := ((← ram.stop) - rom.start).toNat
  let start := 4 * recordWords
  let found := min expected (bytes.size - start)
  if found != expected then throw (.image (.truncated expected found))
  let content := bytes.extract start (start + expected)
  let mem : Memory := { bytes := Memory.zeros rom.start.toNat ++ content, order }
  let part (name : String) (r : Region) : String :=
    name ++ " " ++ Hex.word r.start ++ "+" ++ Hex.word r.size
  let log := log.add .debug .image fun _ =>
    order.name ++ " image: " ++ part "ROM" rom ++ ", " ++ part "EEPROM" eeprom ++ ", " ++
      part "RAM" ram
  return Store.ofMemory mem rom eeprom ram settings log

def checkpointPath (base : String) (n : Nat) : String :=
  base ++ s!"{n}.image"

end Image

end DeviceVm
