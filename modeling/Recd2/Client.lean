import Recd2.Types

/-! The bundled client (`udp-client/client.cpp`). -/

namespace Recd2.Iz
open Bytes

/-- The layout of `iz::frame_data_t`: the header comes before the data, and the structure is not packed. -/
def frameDataLayout : Layout where
  fields := [.uint32, .array 64 .uint8, .array (32 * 16) .int16, .uint8]
  packed := false

/-- The offsets of the counter, `null_bytes`, `data` and `checksum`, and the end of the last one. -/
theorem offsets_eq : frameDataLayout.offsets = [0, 4, 68, 1092, 1093] := by decide

def sizeofFrameData : Nat := frameDataLayout.sizeof

def CHANS : Nat := 32
def SAMPLES : Nat := 16

/-- `counter` and `fileCnt` are the static variables of `transmit`, `packet` the bytes of `m_packet`. -/
structure Client where
  counter : UInt32
  fileCnt : UInt32
  packet : Vector UInt8 sizeofFrameData
  fileData : Fin 100000 → Int16

namespace Client

/-- Bytes stored into the packet from an offset on. -/
def store (packet : Vector UInt8 sizeofFrameData) (off : Nat) (bs : List UInt8) : Vector UInt8 sizeofFrameData :=
  bs.zipIdx.foldl (fun packet b => packet.setIfInBounds (off + b.2) b.1) packet

def fileSample (c : Client) (cnt : UInt32) : Int16 :=
  c.fileData ⟨cnt.toNat % 100000, Nat.mod_lt _ (by decide)⟩

/-- `data[k] = file_data.data[file_cnt++ % 100000]`. -/
def storeSample (c : Client) (k : Nat) : Client :=
  { c with
    packet := store c.packet (frameDataLayout.offsetof 2 + 2 * k) (le16 (c.fileSample c.fileCnt))
    fileCnt := c.fileCnt + 1 }

/-- `Client::transmit`: the client after the call, and the datagram that is written. -/
def transmit (c : Client) : Client × Datagram :=
  let c := (List.range CHANS).foldl
    (fun c i => (List.range SAMPLES).foldl (fun c j => c.storeSample (i * SAMPLES + j)) c) c
  let packet := store c.packet (frameDataLayout.offsetof 1) (List.replicate 64 0)
  let packet := store packet (frameDataLayout.offsetof 0) (le32 (c.counter + 1))
  ({ c with packet := packet, counter := c.counter + 1 }, packet.toList)

/-- The client before its first call of `transmit`. -/
def start (packet : Vector UInt8 sizeofFrameData) (fileData : Fin 100000 → Int16) : Client := ⟨0, 0, packet, fileData⟩

def after (c : Client) (k : Nat) : Client := (fun c => c.transmit.1)^[k] c

/-- The datagram with number `k`, counted from 1. -/
def datagram (c : Client) (k : Nat) : Datagram := (c.after (k - 1)).transmit.2

end Client
end Recd2.Iz
