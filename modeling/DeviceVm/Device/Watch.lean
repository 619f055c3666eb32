import DeviceVm.Collection.Report
import DeviceVm.Device.Basic

/-!
Watched runs. A machine runs a support method of its own choice round by round, and what it looks
like after every collection is written down. Chosen collections are made to look as if they had
made no room, so that the guest has to cope with that.
-/

namespace DeviceVm

structure RoundReport where
  suspended : UInt32
  failedSize : UInt32
  fits : Bool
  chunk : UInt32
  instructions : Nat
  freeRam : UInt32
  partition : List UInt32
  fingerprint : Option String
  text : String

inductive Sight where
  | context (chunk : UInt32)
  | round (report : RoundReport)

structure Watched where
  machine : Machine
  seen : Array Sight := #[]

abbrev Watch := EStateM Fault Watched

@[always_inline, inline]
instance : MonadLift Exec Watch where
  monadLift e := fun w =>
    match e w.machine with
    | .ok a m => .ok a { w with machine := m }
    | .error f m => .error f { w with machine := m }

structure WatchPlan where
  call : SupportCall
  argument : UInt32
  classStates : Bool
  fingerprints : Bool
  failing : List Nat
  rounds : Nat

namespace Watch

def see (sight : Sight) : Watch Unit :=
  modify fun w => { w with seen := w.seen.push sight }

def retry (attempt : Exec UInt32) : Exec UInt32 := do
  let oop ← attempt
  if oop != 0 then return oop
  let _ ← Store.reclaim
  attempt

def collect (fingerprints : Bool) (suspended : UInt32) : Exec RoundReport := do
  let failedSize ← Store.failedSize
  let (chunk, fits) ← Device.collectFor suspended
  let instructions := (← get).instructions
  let freeRam ← Store.freeRam
  let partition ← Store.partition
  let fingerprint ← if fingerprints then some <$> (Store.ramFingerprint : Exec String)
    else pure none
  let text := (← get).text
  modify fun m => { m with output := #[] }
  return {
    suspended, failedSize, fits, chunk, instructions, freeRam, partition, fingerprint, text }

end Watch

namespace WatchPlan

def newContext (p : WatchPlan) : Watch UInt32 := do
  let chunk ← Exec.newContext p.call p.argument
  Watch.see (.context chunk)
  return chunk

def start (p : WatchPlan) : Watch UInt32 := do
  if p.classStates then
    let table ← Watch.retry Device.newClassStateTable
    (Store.setRamRoot Root.classStates table : Exec Unit)
  let chunk ← p.newContext
  if chunk != 0 then return chunk
  let _ ← (Store.reclaim : Exec Bool)
  p.newContext

def runFrom (p : WatchPlan) (budget : Nat) :
    (rounds : Nat) → (chunk : UInt32) → (worked : Bool) → Watch (Option Int32)
  | 0, _, _ => return none
  | rounds + 1, chunk, worked => do
    match ← Exec.resume budget chunk worked with
    | .exit code => return some code
    | .collect suspended =>
      let report ← Watch.collect p.fingerprints suspended
      Watch.see (.round report)
      let failing := p.failing.contains (p.rounds - rounds - 1)
      p.runFrom budget rounds report.chunk (report.fits && !failing)

def run (p : WatchPlan) (budget : Nat) : Watch (Option Int32) := do
  let chunk ← p.start
  p.runFrom budget p.rounds chunk true

end WatchPlan

end DeviceVm
