import DeviceVm.Assembler
import DeviceVm.Stack.Method

/-!
Methods of a program and the bytes they take in memory: a header with the shape of the frame,
the map of the locals that hold references, the exception handlers, and the code.
-/

namespace DeviceVm

structure HandlerRow where
  start : UInt16
  stop : UInt16
  target : UInt16
  classNumber : UInt16
  deriving DecidableEq, Repr

structure MethodBody where
  parameters : UInt8
  locals : UInt8
  /-- Bit `i` is set where local `i` holds a reference. -/
  referenceMap : UInt32 := 0
  handlers : Array HandlerRow := #[]
  code : ByteArray := .empty

namespace MethodBody

def make (parameters locals : UInt8) (referenceMap : UInt32) (code : ByteArray) :
    Except Fault MethodBody := do
  require (parameters ≤ locals && locals ≤ 32)
  return { parameters, locals, referenceMap, code }

def assemble (parameters locals : UInt8) (referenceMap : UInt32) (steps : Assemble Unit) :
    Except Fault MethodBody := do
  make parameters locals referenceMap (← steps.toBytes)

def half (n : Nat) : Except Fault UInt16 :=
  if n < 65536 then .ok n.toUInt16 else .error .broken

def withHandler (m : MethodBody) (start stop target classNumber : Nat) :
    Except Fault MethodBody := do
  let row : HandlerRow :=
    { start := ← half start, stop := ← half stop, target := ← half target
      classNumber := ← half classNumber }
  return { m with handlers := m.handlers.push row }

def append (m : MethodBody) (code : ByteArray) : MethodBody :=
  { m with code := m.code ++ code }

def headerSize (m : MethodBody) : Except Fault UInt32 := do
  let rows ← Word.times m.handlers.size.toUInt32 Method.handlerSize
  Word.plus (← Method.handlersOffset m.locals.toUInt32) rows

def halfBytes (v : UInt16) : List UInt8 := [(v >>> 8).toUInt8, v.toUInt8]

def mapBytes (map : UInt32) (bits : Nat) : List UInt8 :=
  (List.range ((bits + 7) / 8)).map fun i => (map >>> (8 * i).toUInt32).toUInt8

def handlerBytes (header : UInt32) (row : HandlerRow) : List UInt8 :=
  halfBytes (row.start + header.toUInt16) ++ halfBytes (row.stop + header.toUInt16) ++
    halfBytes (row.target + header.toUInt16) ++ halfBytes row.classNumber

def encode (m : MethodBody) (number : UInt32) : Except Fault ByteArray := do
  let header ← m.headerSize
  require (header ≤ 255)
  let shape : List UInt8 :=
    [header.toUInt8, (number >>> 8).toUInt8, number.toUInt8, m.parameters, m.locals]
  let front := shape ++ mapBytes m.referenceMap m.locals.toNat ++
    m.handlers.toList.flatMap (handlerBytes header)
  require (front.length == header.toNat)
  return front.toByteArray ++ m.code

end MethodBody

end DeviceVm
