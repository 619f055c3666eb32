/-!
Numbers of the classes the machine itself knows. They belong to the first suite, whose entry 0
is unused.
-/

namespace DeviceVm.ClassNumber

def boolean : UInt32 := 1
def byte : UInt32 := 2
def char : UInt32 := 3
def short : UInt32 := 4
def int : UInt32 := 5
def long : UInt32 := 6
def float : UInt32 := 7
def double : UInt32 := 8

/-- Element classes up to this number hold no references. -/
def lastPrimitive : UInt32 := double

def object : UInt32 := 9
def classObject : UInt32 := 10
def string : UInt32 := 11
def byteString : UInt32 := 12

def byteArray : UInt32 := 14
def charArray : UInt32 := 15
def intArray : UInt32 := 17
def objectArray : UInt32 := 21
/-- Stack chunks. -/
def localArray : UInt32 := 23
/-- Class states. -/
def globalArray : UInt32 := 24

def support : UInt32 := 25
def association : UInt32 := 26
def suite : UInt32 := 27
def thread : UInt32 := 28
def monitor : UInt32 := 29
def throwable : UInt32 := 30
def outOfMemory : UInt32 := 31
def nullPointer : UInt32 := 32
def arrayIndex : UInt32 := 33
def arithmetic : UInt32 := 34
def arrayStore : UInt32 := 35
def classCast : UInt32 := 36

def firstFree : UInt32 := 37

end DeviceVm.ClassNumber
