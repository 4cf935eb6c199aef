import Recd2.Config
import Recd2.Lib.Hash

/-! The configuration with its hash (`utils/recorder-config.cpp`). Every query goes through the operator `[]` of the hash
    and so puts an empty list in for a tag that is not there. `view` is the configuration that the other modules have. -/

namespace Recd2
open RecorderConfig

/-- `m_tags`, and the text of the static pair `none`. -/
structure ConfigHash where
  tags : Hash String PairList
  notFound : String

namespace ConfigHash

def view (c : ConfigHash) : RecorderConfig := ⟨c.tags.value, c.notFound⟩

/-! ### Queries -/

def getTagPairs (c : ConfigHash) (tag : String) : PairList × ConfigHash :=
  (c.tags.value tag, { c with tags := c.tags.touch tag })

def getAttribPairFromTag (c : ConfigHash) (tag attrib : String) : Attrib × ConfigHash :=
  let (plst, c) := c.getTagPairs tag
  ((plst.find? (·.type1 == attrib)).getD ⟨"", c.notFound⟩, c)

/-- A number of queries, each of a tag and an attribute. -/
def lookups (c : ConfigHash) (queries : List (String × String)) : ConfigHash :=
  queries.foldl (fun c q => (c.getAttribPairFromTag q.1 q.2).2) c

/-! ### Loading -/

def clear (c : ConfigHash) : ConfigHash := { c with tags := .empty }

/-- The loop over the attributes of an element. -/
def append (c : ConfigHash) (e : StartElement) : ConfigHash :=
  e.attributes.foldl (fun c a => { c with tags := c.tags.modify e.name (· ++ [a]) }) c

def fastLoadFile (files : Files) (fname : String) (c : ConfigHash) : ConfigHash × Bool :=
  if fname = "" then (c, false)
  else match files fname with
    | some elements => (elements.foldl append c.clear, true)
    | none => (c.clear, false)

/-- The names for which `loadFile` has a branch that appends. The branch of `Plugin` is empty, and so is the last one. -/
def safeTags : List String := ["HotSwap", "FrameData", "Wave", "Record", "Network", "Log", "Heartbeat"]

/-- The reader has no error before it has read. -/
def loadFile (files : Files) (fname : String) (c : ConfigHash) : ConfigHash × Bool :=
  match files fname with
  | some elements => (elements.foldl (fun c e => if e.name ∈ safeTags then c.append e else c) c, true)
  | none => (c, false)

def loadDefaults (c : ConfigHash) : ConfigHash := defaults.foldl append c

end ConfigHash

/-! ### Documents -/

/-- The content of an element: nothing, or an element with its attributes and its own content, and what is behind it. -/
inductive Content where
  | nothing
  | element (name : String) (attributes : PairList) (content behind : Content)

/-- The start elements in the order of the document, as the XML reader reports them. -/
def Content.startElements : Content → List StartElement
  | nothing => []
  | element name attributes content behind => ⟨name, attributes⟩ :: (content.startElements ++ behind.startElements)

end Recd2
