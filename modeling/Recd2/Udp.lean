import Recd2.Config
import Recd2.Lib.Run
import Recd2.Text
import Recd2.Types

/-! The UDP streamer (`udp-streamer/server.cpp`): `Server::init`, the handler of the socket's `readyRead`, and
    the timer slot `checkConnection`.

    A notification carries the datagrams that are pending when it is handled. Sockets, the timer and the
    log server are outside the model: what the handler sends to them is an `Event`. -/

namespace Recd2

/-! ### Connection counters -/

structure ConnInfo where
  paketCounter : UInt32
  desynchCounter : UInt32
  totalLost : UInt32
  onetimeSynch : Bool
  deriving DecidableEq, Repr

namespace ConnInfo

def reset : ConnInfo := ⟨0, 0, 0, false⟩

/-- `int errs = udp.counter - m_conn_info.paketCounter`, behind the pre-increment of the condition. -/
def errs (c : ConnInfo) (counter : UInt32) : Int32 := (counter - (c.paketCounter + 1)).toInt32

/-- The counters after a frame: `++paketCounter` in the condition, and the synchronisation where the frame
    is not the next one. -/
def receive (c : ConnInfo) (counter : UInt32) : ConnInfo :=
  if counter ≠ c.paketCounter + 1 then
    { paketCounter := counter
      desynchCounter := c.desynchCounter + 1
      totalLost := c.totalLost + (c.errs counter).toUInt32
      onetimeSynch := true }
  else { c with paketCounter := c.paketCounter + 1 }

end ConnInfo

/-! ### What the handler sends -/

/-- A text for the log server, with the numbers it shows. -/
inductive Message where
  | desynch (counter desynchCounter paketCounter lost totalLost : UInt32)
  | missedUdp
  | lostConnection
  deriving DecidableEq, Repr

/-- The text itself; `dateTime` is what `DateTime::getDateTime` returns. -/
def Message.text (dateTime : String) : Message → String
  | .desynch counter desynchCounter paketCounter lost totalLost =>
    "Last synch packet:(" ++ toString counter ++ ")\t at: [" ++ dateTime ++ "]\nTotal desynch:(" ++
      toString desynchCounter ++ ")\nServer counter: (" ++ toString paketCounter ++ ")\nLost: (" ++ toString lost ++
      ")\nTotal lost: (" ++ toString totalLost ++ ")\n"
  | .missedUdp => "Missed an UDP\n"
  | .lostConnection => "Lost connection!\n"

inductive Event where
  | sendMessage (m : Message)
  | putData (ls : QList)
  deriving DecidableEq, Repr

def Event.list? : Event → Option QList
  | .putData ls => some ls
  | .sendMessage _ => none

def putDataCalls (es : List Event) : List QList := es.filterMap Event.list?

/-! ### The server -/

structure PeekOptions where
  peekOnOff : Bool
  peekSize : Int32

/-- `fresh` is what the memory of a `new short[512]` holds before it is written: any content.
    `helperBuffer` and `helperPackSize` are `m_helper->m_buffer` and `m_helper->m_packSize`. -/
structure Server where
  connInfo : ConnInfo
  monitorData : List Char
  channels : UInt32
  smplPerChan : UInt32
  port : UInt16
  singleFile : Bool
  errUdp : FrameData
  peekOptions : PeekOptions
  helperBuffer : List FrameData
  helperPackSize : Int32
  fresh : Nat → Int16

/-- A read of `data[k]`. Behind the 512 samples it is undefined in the source, and 0 here. -/
def FrameData.sample (f : FrameData) (k : Nat) : Int16 := f.data[k]?.getD 0

/-- A read of `null_bytes[i]`. -/
def FrameData.nullByte (f : FrameData) (i : Nat) : UInt8 := f.nullBytes[i]?.getD 0

/-- The loops over `m_channels` and `m_smplPerChan` that fill a list from the interleaved samples of a
    frame: sample `j` of block `i` is `data[j * m_channels + i]`. -/
def deinterleave (channels smplPerChan : UInt32) (signal : Nat → UInt8) (f : FrameData) : QList :=
  (List.range channels.toNat).map fun i =>
    { signal := signal i
      samples := (List.range smplPerChan.toNat).map fun j => f.sample (j * channels.toNat + i)
      size := smplPerChan }

namespace Server

/-- The constructed server. What the constructor leaves unset is zero here. -/
def new : Server where
  connInfo := .reset
  monitorData := []
  channels := 0
  smplPerChan := 0
  port := 0
  singleFile := false
  errUdp := ⟨0, .replicate 512 0, .replicate 64 0, 0⟩
  peekOptions := ⟨false, 0⟩
  helperBuffer := []
  helperPackSize := 0
  fresh := fun _ => 0

/-- The rest of the chain behind the server, as far as the handler sees it: what it leaves of the list. -/
abbrev Next : Type := Option (QList → QList)

/-- `Server::put_data`: what the list holds after the call. -/
def putData (next : Next) (ls : QList) : QList :=
  match next with
  | some f => f ls
  | none => []

def disconnected (s : Server) : Server := { s with monitorData := [], connInfo := .reset }

/-- The blocks a missed frame is replaced by, built from `err_udp` with a zero signal byte. -/
def errBlocks (s : Server) : QList := deinterleave s.channels s.smplPerChan (fun _ => 0) s.errUdp

/-- The loop over `errs`. `err_ls` is declared in front of it, and `put_data` gets its address. -/
def errLoop (next : Next) (blocks : QList) : Nat → QList → List QList
  | 0, _ => []
  | n + 1, errLs => (errLs ++ blocks) :: errLoop next blocks n (putData next (errLs ++ blocks))

def errLists (next : Next) (s : Server) (udp : FrameData) : List QList :=
  if !s.connInfo.onetimeSynch then [s.errBlocks]
  else errLoop next s.errBlocks (s.connInfo.errs udp.counter).toInt.toNat []

/-- The list sent for the next frame. In single-file mode `memcpy` copies 512 bytes, that is 256 samples. -/
def frameList (s : Server) (udp : FrameData) : QList :=
  if !s.singleFile then deinterleave s.channels s.smplPerChan udp.nullByte udp
  else
    [{ signal := 1
       samples := (List.range 512).map fun k => if 2 * k < 512 then udp.sample k else s.fresh k
       size := 512 }]

/-- A datagram of the size of a frame. `checksum_lrc` is compared with the checksum of the frame, but the
    branch for a difference is empty. -/
def handleFrame (next : Next) (s : Server) (udp : FrameData) : Server × List Event :=
  ({ s with
      helperBuffer := if s.peekOptions.peekOnOff then s.helperBuffer ++ [udp] else s.helperBuffer
      connInfo := s.connInfo.receive udp.counter },
   if udp.counter ≠ s.connInfo.paketCounter + 1 then
     .sendMessage (.desynch udp.counter s.connInfo.desynchCounter (s.connInfo.paketCounter + 1)
         (udp.counter - (s.connInfo.paketCounter + 1)) s.connInfo.totalLost) ::
       (errLists next s udp).map .putData
   else [.putData (s.frameList udp)])

def handleDatagram (next : Next) (s : Server) (buff : Datagram) : Server × List Event :=
  if buff.length = sizeofFrameData then handleFrame next s (FrameData.ofBytes buff)
  else (s, [.sendMessage .missedUdp])

/-- `Server::readyReadUdp` with the datagrams that are pending. -/
def readyReadUdp (next : Next) (s : Server) (pending : List Datagram) : Server × List Event :=
  if pending ≠ [] then
    let s := { s with monitorData := s.monitorData ++ ['.'] }
    (Run.state (handleDatagram next) s pending, Run.emits (handleDatagram next) s pending)
  else (s.disconnected, [])

def checkConnection (s : Server) : Server × List Event :=
  if s.monitorData.isEmpty then (s.disconnected, [.sendMessage .lostConnection])
  else ({ s with monitorData := [] }, [])

inductive Input where
  | readyRead (pending : List Datagram)
  | timeout

def step (next : Next) (s : Server) : Input → Server × List Event
  | .readyRead pending => s.readyReadUdp next pending
  | .timeout => s.checkConnection

/-! ### `Server::init` -/

/-- The two loops that fill the first `m_smplPerChan * m_channels` samples of `err_udp`. A write behind the
    512 samples is undefined in the source, and none here. -/
def fillErrUdp (channels smplPerChan : UInt32) (f : FrameData) : FrameData :=
  { f with
    data := (List.range smplPerChan.toNat).foldl (fun data i =>
      (List.range channels.toNat).foldl (fun data j => data.setIfInBounds (i * channels.toNat + j) 32000) data)
        f.data }

def initSingleFile (singleFile : Attrib) : Bool :=
  if singleFile.type1 = "" then true else (QString.toInt singleFile.type2).getD 0 = 1

def initSmplPerChan (smpls : Attrib) : UInt32 :=
  if smpls.type1 = "" then 16
  else match QString.toInt smpls.type2 with
    | some n => n.toUInt32
    | none => 16

def initChannels (chans : Attrib) : UInt32 :=
  if chans.type1 = "" then 1
  else match QString.toInt chans.type2 with
    | some n => if 127 < n.toUInt32 ∨ n.toUInt32 ≤ 0 then 1 else n.toUInt32
    | none => 1

/-- The settings that `Server::init` reads. Where the port is not found, `m_port` stays as it is. -/
def configure (cfg : RecorderConfig) (s : Server) : Server :=
  let smplPerChan := initSmplPerChan (cfg.getAttribPairFromTag "FrameData" "samplesPerChan")
  let channels := initChannels (cfg.getAttribPairFromTag "FrameData" "channels")
  let peekOn := cfg.getAttribPairFromTag "Peek" "enabled"
  let size := cfg.getAttribPairFromTag "Peek" "size"
  let peekOnOff := s.peekOptions.peekOnOff || (peekOn.type1 != "" && (peekOn.type2 == "true" || peekOn.type2 == "enabled"))
  let peekSize := if size.type1 != "" then (QString.toInt size.type2).getD 10 else s.peekOptions.peekSize
  let port := cfg.getAttribPairFromTag "Network" "port"
  { s with
    singleFile := initSingleFile (cfg.getAttribPairFromTag "Record" "files")
    smplPerChan := smplPerChan
    channels := channels
    errUdp := fillErrUdp channels smplPerChan s.errUdp
    peekOptions := ⟨peekOnOff, peekSize⟩
    helperPackSize := if size.type1 != "" then peekSize else s.helperPackSize
    port := if port.type1 = "" then s.port else ((QString.toInt port.type2).getD 1234).toUInt32.toUInt16 }

/-- Where the port is not found, its text is written into the shared not-found pair. -/
def failsafePort (cfg : RecorderConfig) : RecorderConfig :=
  if (cfg.getAttribPairFromTag "Network" "port").type1 = "" then { cfg with notFound := "1234" } else cfg

/-- `Server::init`, with the success of `QUdpSocket::bind` given. `none` stands for the `exit(1)` of a
    transport that is neither `udp` nor `tcp`. -/
def init (bind : UInt16 → Bool) (cfg : RecorderConfig) (s : Server) : Option (Server × RecorderConfig) :=
  let s := s.configure cfg
  let cfg := failsafePort cfg
  let transport := cfg.getAttribPairFromTag "Network" "transport"
  if transport.type2 = "udp" then some (if bind s.port then s else s.disconnected, cfg)
  else if transport.type2 = "tcp" then some (s, cfg)
  else none

end Server
end Recd2
