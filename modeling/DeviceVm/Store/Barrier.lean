import DeviceVm.Store.Basic

/-!
Stores of references. A store into RAM is recorded in the bit vector where the collector needs
it; persistent memory never refers to RAM, and ROM is never written.
-/

namespace DeviceVm.Store

def recordStore (addr : UInt32) : Run Unit := do
  if (← get).barrier then
    require (!(← get).collecting)
    setBit addr

def setReferenceInRam (obj : UInt32) (index : Int32) (v : UInt32) : Run Unit := do
  require (← inRam obj)
  recordStore (obj + (← Word.scaled index 4))
  Memory.setWord obj index v

def setReference (obj : UInt32) (index : Int32) (v : UInt32) : Run Bool := do
  if ← inRam obj then
    setReferenceInRam obj index v
    return true
  else if ← inEeprom obj then
    if ← inRam v then return false
    Memory.setWord obj index v
    return true
  else return false

def writable (obj : UInt32) : Query Bool := do
  if ← inRam obj then return true else inEeprom obj

end DeviceVm.Store
