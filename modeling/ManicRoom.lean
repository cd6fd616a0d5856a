import ManicRoom.Foundation.Transition
import ManicRoom.Foundation.Machine
import ManicRoom.Member.Event
import ManicRoom.Member.Model
import ManicRoom.Member.Effect
import ManicRoom.Member.Invariant
import ManicRoom.Member.Leave
import ManicRoom.Member.SendList
import ManicRoom.Member.MacAddress
import ManicRoom.Session.Request
import ManicRoom.Session.Model
import ManicRoom.Session.Facts
import ManicRoom.Session.Call
import ManicRoom.Session.Invariant
import ManicRoom.Session.EndState
import ManicRoom.Session.Lifecycle
import ManicRoom.Member.Rejection
import ManicRoom.Member.Returns
import ManicRoom.Session.HostedRoom
import ManicRoom.Session.Rejection
import ManicRoom.Session.Departure
import ManicRoom.Member.Admission
import ManicRoom.Session.Hosting
import ManicRoom.Kernel.Model
import ManicRoom.Kernel.Workaround
import ManicRoom.Kernel.Registration
import ManicRoom.Frontend.Exclusion
import ManicRoom.Foundation.Program
import ManicRoom.Foundation.Words
import ManicRoom.Cia.Policy
import ManicRoom.Cia.Layout
import ManicRoom.Cia.Format
import ManicRoom.Cia.Cancellation
import ManicRoom.Cia.Bounds
import ManicRoom.Cia.Paths
import ManicRoom.Session.Locking
import ManicRoom.Storage.Isolation
import ManicRoom.Foundation.Operations
import ManicRoom.Storage.Options
import ManicRoom.Cheats.Running
import ManicRoom.Keyboard.Applet
import ManicRoom.Keyboard.Requests
import ManicRoom.MachO.Walk
import ManicRoom.MachO.RoundTrip
import ManicRoom.Session.Answers
import ManicRoom.Session.MemberList
import ManicRoom.Cia.Confinement
import ManicRoom.Cia.Directories
import ManicRoom.Cia.UserPaths
import ManicRoom.Uds.NodeMap
import ManicRoom.Uds.Network
import ManicRoom.Uds.Crossing
import ManicRoom.Uds.Silence
import ManicRoom.Uds.Data
import ManicRoom.Uds.Beacons
import ManicRoom.Storage.CryptoIOFile
import ManicRoom.MemoryMap.Setup
import ManicRoom.Foundation.Removal
import ManicRoom.Storage.Deletion
import ManicRoom.Storage.Emptying
import ManicRoom.Uds.Strangers
