import Mathlib.Data.List.Basic

/-! The configuration that the plugins read (`utils/recorder-config.h`, `MPair` of `utils/types.h`). -/

namespace Recd2

structure MPair (α β : Type) where
  type1 : α
  type2 : β
  deriving DecidableEq, Repr

abbrev Attrib : Type := MPair String String

abbrev PairList : Type := List Attrib

/-- `notFound` is the text of the static pair `none` of `getAttribPairFromTag`, whose name is empty. Callers get
    a reference to it, and `Server::init` writes the text. -/
structure RecorderConfig where
  tags : String → PairList
  notFound : String

namespace RecorderConfig

def new : RecorderConfig := ⟨fun _ => [], ""⟩

def getTagPairs (c : RecorderConfig) (tag : String) : PairList := c.tags tag

def getAttribPairFromTag (c : RecorderConfig) (tag attrib : String) : Attrib :=
  ((c.getTagPairs tag).find? (·.type1 == attrib)).getD ⟨"", c.notFound⟩

/-! ### Loading -/

/-- A start element that the XML reader reports, with its attributes. -/
structure StartElement where
  name : String
  attributes : PairList

/-- What the XML reader reports for the file of a name; `none` when the file cannot be opened. -/
abbrev Files : Type := String → Option (List StartElement)

def clear (c : RecorderConfig) : RecorderConfig := { c with tags := fun _ => [] }

/-- The loop over the attributes of one element. -/
def append (c : RecorderConfig) (e : StartElement) : RecorderConfig :=
  { c with tags := fun tag => if tag = e.name then c.tags tag ++ e.attributes else c.tags tag }

def fastLoadFile (files : Files) (fname : String) (c : RecorderConfig) : RecorderConfig × Bool :=
  if fname = "" then (c, false)
  else match files fname with
    | some elements => (elements.foldl append c.clear, true)
    | none => (c.clear, false)

/-! ### The defaults -/

/-- The pairs that `loadDefaults` appends, tag by tag. -/
def defaults : List StartElement :=
  [⟨"Channels", [⟨"count", "32"⟩]⟩,
    ⟨"HotSwap", [⟨"timeBased", "enabled"⟩, ⟨"maxSize", "100MB"⟩, ⟨"interval", "30"⟩]⟩,
    ⟨"Wave", [⟨"samplesPerFrame", "8000"⟩, ⟨"bitsPerSec", "16"⟩, ⟨"fmtLength", "16"⟩, ⟨"audioFormat", "1"⟩,
      ⟨"channels", "1"⟩, ⟨"endiness", "LE"⟩]⟩,
    ⟨"Paths", [⟨"records", "records"⟩, ⟨"logs", "logs"⟩]⟩,
    ⟨"Record", [⟨"timestamp", "enabled"⟩, ⟨"hasNumericConvention", "true"⟩]⟩,
    ⟨"Network", [⟨"transport", "udp"⟩, ⟨"port", "1234"⟩]⟩,
    ⟨"Log", [⟨"name", "recorder.log"⟩, ⟨"timestamp", "enabled"⟩, ⟨"speed", "1000"⟩]⟩,
    ⟨"Heartbeat", [⟨"timeout", "2000"⟩, ⟨"port", "5678"⟩, ⟨"host", "127.0.0.1"⟩, ⟨"enabled", "false"⟩]⟩]

def loadDefaults (c : RecorderConfig) : RecorderConfig := defaults.foldl append c

end RecorderConfig
end Recd2
