import DeviceVm.CommandLine

/-!
The command. It reads the image, prints what the guest prints, and writes the checkpoints.
-/

namespace DeviceVm.Main

def roundBudget : Nat := 0x7fffffffffffffff

def helpText : String :=
  "Usage: device-vm [OPTIONS] [IMAGE]\n\n" ++
  "  IMAGE                  The image file to run\n" ++
  "  --demo                 Run the built-in allocation demo\n" ++
  "  --ram BYTES            RAM size of the demo image\n" ++
  "  --eeprom BYTES         EEPROM size of the demo image\n" ++
  "  --checkpoint BASE      Write an image after every collection\n" ++
  "  --collector KIND       cheney or lisp2\n" ++
  "  --young PERCENT        Ideal young generation size\n" ++
  String.join (Command.switchNames.map fun name => "  --" ++ name ++ "\n")

def flushOutput (d : Device) : IO Device := do
  let stdout ← IO.getStdout
  let stderr ← IO.getStderr
  for (stream, text) in d.machine.output do
    match stream with
    | .standard => stdout.putStr text
    | .error => stderr.putStr text
  stdout.flush
  for line in d.machine.store.log.lines do stderr.putStrLn line
  return { d with
    machine := { d.machine with
      output := #[]
      store := { d.machine.store with log := { d.machine.store.log with lines := #[] } } } }

def writeCheckpoints (d : Device) (done : Nat) : IO Nat := do
  match d.settings.checkpoint with
  | none => return done
  | some base =>
    let count := d.checkpoints.size
    for n in [done:count] do
      if let some image := d.checkpoints[n]? then
        IO.FS.writeBinFile (Image.checkpointPath base n) image
    return count

def faultText : Fault → String
  | .io => "a file cannot be read or written"
  | fault => fault.message?.getD "the machine is in a state it must not be in"

def report (fault : Fault) : IO UInt32 := do
  (← IO.getStderr).putStrLn ("device-vm: " ++ faultText fault)
  return Command.faultStatus.toUInt32

partial def rounds (d : Device) (chunk : UInt32) (worked : Bool) (written : Nat) : IO UInt32 := do
  match Device.round roundBudget chunk worked d with
  | .error fault d =>
    let _ ← flushOutput d
    let _ ← writeCheckpoints d written
    report fault
  | .ok result d =>
    let d ← flushOutput d
    let written ← writeCheckpoints d written
    match result with
    | .finished code => return (Command.status code).toUInt32
    | .collected chunk worked => rounds d chunk worked written

def runDevice (d : Device) : IO UInt32 := do
  match (Device.start : Operate UInt32) d with
  | .error fault d =>
    let _ ← flushOutput d
    report fault
  | .ok chunk d => try rounds d chunk true 0 catch _ => report .io

def readImage (path : Option String) : IO (Option ByteArray) := do
  match path with
  | none => return none
  | some path => try return some (← IO.FS.readBinFile path) catch _ => return none

def run (args : List String) : IO UInt32 := do
  match Command.parse args with
  | .error .information =>
    IO.print helpText
    return 0
  | .error .usage =>
    (← IO.getStderr).putStr helpText
    return Command.usageStatus.toUInt32
  | .ok c =>
    let image ← readImage c.image
    match c.boot { read := fun _ => image } (← IO.monoMsNow) with
    | .error fault => report fault
    | .ok d => runDevice d

end DeviceVm.Main

def main (args : List String) : IO UInt32 :=
  DeviceVm.Main.run args
