import DeviceVm.Memory.Access

/-!
Fingerprints of memory: FNV-1a hashes of 64 bits. Equal contents have equal fingerprints, so that
two runs can be compared without keeping their memory.
-/

namespace DeviceVm

namespace Fingerprint

def basis : UInt64 := 0xcbf29ce484222325

def factor : UInt64 := 0x100000001b3

def add (hash : UInt64) (b : UInt8) : UInt64 :=
  (hash ^^^ b.toUInt64) * factor

def ofBytes (bytes : ByteArray) : String :=
  Hex.padded 16 (bytes.foldl add basis).toNat

end Fingerprint

namespace Memory

def fingerprint (addr size : UInt32) : Read String :=
  return Fingerprint.ofBytes (← slice addr size)

end Memory

end DeviceVm
