import DeviceVm.Device.Watch
import DeviceVm.Main
import DeviceVm.Proofs.ClassStates
import DeviceVm.Proofs.Contexts.Resuming
import DeviceVm.Proofs.HeaderChanges
import DeviceVm.Proofs.Image
import DeviceVm.Proofs.Interpreter.ArrayCopy
import DeviceVm.Proofs.Interpreter.Decoding
import DeviceVm.Proofs.Marking
import DeviceVm.Proofs.Persistent.Collection
import DeviceVm.Proofs.Persistent.Requests
import DeviceVm.Proofs.Persistent.Undoing
import DeviceVm.Proofs.Program.Encoding
import DeviceVm.Proofs.Scanning
import DeviceVm.Proofs.Sliding.Attaching
import DeviceVm.Proofs.Sliding.Encoding
import DeviceVm.Proofs.Stack.Exhaustion
import DeviceVm.Proofs.Stack.Limits
