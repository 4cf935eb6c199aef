import Recd2.Theorems.Arrays
import Recd2.Theorems.Clients
import Recd2.Theorems.Corrupted
import Recd2.Theorems.Decode
import Recd2.Theorems.Delivery
import Recd2.Theorems.DialTones
import Recd2.Theorems.Drain
import Recd2.Theorems.Failsafe
import Recd2.Theorems.FirstChannel
import Recd2.Theorems.Heard
import Recd2.Theorems.Indices
import Recd2.Theorems.LoadPlugins
import Recd2.Theorems.Locked
import Recd2.Theorems.Log
import Recd2.Theorems.Lookup
import Recd2.Theorems.LostWakeup
import Recd2.Theorems.Lrc
import Recd2.Theorems.Metering
import Recd2.Theorems.NameLength
import Recd2.Theorems.NotFound
import Recd2.Theorems.PassedFrames
import Recd2.Theorems.Producers
import Recd2.Theorems.ReadAll
import Recd2.Theorems.Receive
import Recd2.Theorems.Return
import Recd2.Theorems.Sizes
import Recd2.Theorems.SlotStates
import Recd2.Theorems.SpinLock
import Recd2.Theorems.TcpSession
import Recd2.Theorems.Teardown
import Recd2.Theorems.Thresholds
import Recd2.Theorems.Timeline
import Recd2.Theorems.Usable
import Recd2.Theorems.WaveFile
