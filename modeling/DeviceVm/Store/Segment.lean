import DeviceVm.Memory.Word

/-!
Segments of the address space. Each starts with a record of eight words that describe its
object memory, followed by eight roots.
-/

namespace DeviceVm

inductive Segment where
  | rom | eeprom | ram
  deriving DecidableEq, Repr

namespace Segment

def all : List Segment := [rom, eeprom, ram]

def name : Segment → String
  | rom => "ROM"
  | eeprom => "EEPROM"
  | ram => "RAM"

end Segment

structure Region where
  start : UInt32 := 0
  size : UInt32 := 0
  deriving DecidableEq, Repr

/-! ### Words of the record at the start of a segment -/

namespace SegmentRecord

def objectStart : Int32 := 0
def objectSize : Int32 := 1
def partitionStart : Int32 := 2
def partitionFree : Int32 := 3
def partitionEnd : Int32 := 4
def failedSize : Int32 := 5
/-- In RAM the first byte of this word is a throw instruction, which raises the out-of-memory
error after a collection that failed. -/
def throwCode : Int32 := 6
def roots : Int32 := 8
def rootCount : Int32 := 8
def bytes : UInt32 := 64

end SegmentRecord

/-! ### Roots

One index means different things in different segments. -/

namespace Root

def classStates : Int32 := 0
def freeList : Int32 := 0
def currentChunk : Int32 := 1
def support : Int32 := 1
def chunkList : Int32 := 2
def suites : Int32 := 2
def persistentTable : Int32 := 3
def outOfMemory : Int32 := 4
def fastLocks : Int32 := 5
def associations : Int32 := 6
def finalization : Int32 := 7

def all : List Int32 := [0, 1, 2, 3, 4, 5, 6, 7]

end Root

namespace Region

open Word

def stop (r : Region) : Except Fault UInt32 := plus r.start r.size

@[inline] def contains (r : Region) (addr : UInt32) : Except Fault Bool :=
  if addr < r.start then .ok false else do return addr < (← r.stop)

def heapStart (r : Region) : Except Fault UInt32 := plus r.start SegmentRecord.bytes

end Region

end DeviceVm
