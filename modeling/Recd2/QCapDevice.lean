import Recd2.Types

/-! The capture plugin (`alsa-rec/qcapdev.cpp`): the handler of the device's `readyRead`. Choosing the format and
    opening the device are outside the model. -/

namespace Recd2.QCapDevice
open Bytes

/-- The samples behind a pointer into the bytes. -/
def shorts (bytes : List UInt8) : List Int16 := (List.range (bytes.length / 2)).map fun k => ofLE16 (slice (2 * k) 2 bytes)

/-- The list that the handler in `hEvLoop` passes on. The size it sets is that of the byte array. -/
def readyRead (samples : List UInt8) : QList :=
  [{ signal := 0
     samples := shorts samples
     size := UInt32.ofNat samples.length }]

end Recd2.QCapDevice
