import DeviceVm.Program.Support

/-!
A built-in program. It allocates arrays of integers and keeps the last few of them in a ring, so
that every collection has both garbage and live objects. At the end it prints the first element of
the newest array, which is the last loop index.
-/

namespace DeviceVm

structure Demo where
  iterations : UInt32 := 2000
  ring : UInt32 := 8
  arrayLength : UInt32 := 64
  /-- The code to exit with when memory runs out. Without one the error is not caught. -/
  outOfMemoryExit : Option Int32 := none

namespace Demo

open Assemble

structure Guarded where
  start : Nat
  stop : Nat

def loopCode (d : Demo) (objectArray intArray banner : UInt16) : Assemble Guarded := do
  extend 4
  constInt d.ring.toInt32
  classRef objectArray
  op .newarray
  store 1
  constInt 0
  store 0
  let head ← position
  load 0
  constInt d.iterations.toInt32
  let done ← branch (.branch (.pair .ge))
  let start ← position
  constInt d.arrayLength.toInt32
  classRef intArray
  op .newarray
  let stop ← position
  store 2
  load 2
  constInt 0
  load 0
  op (.astore .word)
  load 1
  load 0
  constInt d.ring.toInt32
  op (.int .rem)
  load 2
  op (.astore .ref)
  inc 0
  branchTo (.branch .always) head
  bind done
  object banner
  native .print
  load 1
  load 0
  constInt 1
  op (.int .sub)
  constInt d.ring.toInt32
  op (.int .rem)
  op (.aload .word)
  constInt 0
  op (.aload .word)
  native .printInt
  constInt 10
  native .putch
  constInt 0
  native .exit
  op (.ret .none)
  return { start, stop }

def exitCode (code : Int32) : Assemble Unit := do
  op .pop
  constInt code
  native .exit
  op (.ret .none)

def mainMethod (d : Demo) (objectArray intArray banner : UInt16) : Except Fault MethodBody := do
  let (guarded, code) ← (d.loopCode objectArray intArray banner).run {}
  let m ← MethodBody.make 0 3 0b110 code.bytes
  match d.outOfMemoryExit with
  | none => return m
  | some exit =>
    let handler := m.code.size
    let m := m.append (← (exitCode exit).toBytes)
    m.withHandler guarded.start guarded.stop handler ClassNumber.outOfMemory.toNat

def describe (d : Demo) : Describe Unit := do
  let suite ← Describe.addSuite
  let demo ← Describe.addClass suite "Demo" ClassNumber.object 0 0
  let objectArray ← Describe.referClass demo ClassNumber.objectArray
  let intArray ← Describe.referClass demo ClassNumber.intArray
  let banner ← Describe.referString demo "last survivor: "
  let slot ← Describe.addStaticMethod demo (← d.mainMethod objectArray intArray banner)
  Describe.setStart demo slot

def program (d : Demo) : Except Fault Program := do
  let (_, p) ← d.describe.run Program.empty
  return p

end Demo

end DeviceVm
