import DeviceVm.Store.ClassTable

/-!
Forwarding words of the sliding collector. The low 24 bits of the class word of an object that
is about to move hold the distance it moves, in words, above the dense number of its class.
-/

namespace DeviceVm

structure Forwarding where
  classBits : UInt32
  maxDelta : UInt32
  deriving DecidableEq, Repr

namespace Forwarding

open Word

def bitsFor (n : UInt32) : UInt32 :=
  if n == 0 then 0 else (n.toNat.log2 + 1).toUInt32

def ofClasses : Run Forwarding := do
  let classBits := bitsFor (← Store.classCount)
  require (classBits ≤ 24)
  let farthest := ((1 <<< (24 - classBits)) - 1) * 4
  let maxDelta := match (← get).sliding.deltaLimit with
    | none => farthest
    | some limit => min farthest limit
  Store.say .trace .collection fun _ =>
    s!"forwarding: {classBits} class bits, max delta {maxDelta} bytes"
  return { classBits, maxDelta }

def classMask (f : Forwarding) : UInt32 := (1 <<< f.classBits) - 1

def forward (f : Forwarding) (oop k delta : UInt32) : Run Unit := do
  let dense ← Store.denseNumber k
  require (dense ≤ f.classMask && delta ≤ f.maxDelta)
  Header.setLowBits oop ((delta / 4) <<< f.classBits ||| dense)

def target (f : Forwarding) (oop : UInt32) : Read UInt32 := do
  let low ← Header.lowBits oop
  minus oop (← times (low >>> f.classBits) 4)

def classOf (f : Forwarding) (oop : UInt32) : Query UInt32 := do
  let low ← Header.lowBits oop
  Store.classOfDense (low &&& f.classMask)

end Forwarding

end DeviceVm
