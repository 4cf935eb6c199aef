import Recd2.Types

/-! The chain of plugins: the list of interfaces of the plugin manager (`app/defs.cpp`), and the `put_data` of
    each plugin of the repository. -/

namespace Recd2

/-! ### The list of interfaces -/

/-- `head` and `tail` of `InterfaceList`, and the `nextPlugin` of each interface. -/
structure InterfaceList (α : Type) where
  head : Option α
  tail : Option α
  nextPlugin : α → Option α

namespace InterfaceList
variable {α : Type} [DecidableEq α]

def empty : InterfaceList α := ⟨none, none, fun _ => none⟩

def setNext (l : InterfaceList α) (p : α) (q : Option α) : InterfaceList α :=
  { l with nextPlugin := fun x => if x = p then q else l.nextPlugin x }

def put (l : InterfaceList α) (iface : α) : InterfaceList α :=
  match l.head, l.tail with
  | none, _ => { l with head := some iface, tail := some iface }
  | some _, some tail => { l.setNext tail (some iface) with tail := some iface }
  | some _, none => l

/-- `loadLibrary` where the library loads: `get_interface` clears `nextPlugin`. -/
def loadLibrary (l : InterfaceList α) (iface : α) : InterfaceList α := (l.setNext iface none).put iface

/-- The loop `while (it != nullptr)` of `initAllPlugins` and the other traversals, for `fuel` rounds at most: the
    interfaces it visits; `none` when that is not enough. -/
def walk (nextPlugin : α → Option α) : Nat → Option α → Option (List α)
  | _, none => some []
  | 0, some _ => none
  | fuel + 1, some it => (walk nextPlugin fuel (nextPlugin it)).map (it :: ·)

end InterfaceList

/-! ### Plugins -/

inductive Plugin where
  | server
  | recorder
  | dtmf
  | md5
  | null
  | consumer
  | producer
  | qcap
  deriving DecidableEq, Repr

/-- What `put_data` reads and writes: the links, the list behind `data`, the queue of the recorder and the
    buffer of the DTMF plugin. `calls` records each call with the list on its entry. -/
structure World where
  nextPlugin : Plugin → Option Plugin
  list : QList
  recorderBuffer : List QList
  dtmfBuffer : List SampleData
  calls : List (Plugin × QList)

abbrev Call : Type := Plugin → World → Option World

/-- The tail that most plugins share: the next plugin gets the list, and the last one clears it. -/
def forwardOrClear (self : Plugin) (call : Call) (w : World) : Option World :=
  match w.nextPlugin self with
  | some next => call next w
  | none => some { w with list := [] }

/-- The same, but the last plugin leaves the list. -/
def forwardOrKeep (self : Plugin) (call : Call) (w : World) : Option World :=
  match w.nextPlugin self with
  | some next => call next w
  | none => some w

namespace Plugin

def Server.putData : Call → World → Option World := forwardOrClear .server
def Null.putData : Call → World → Option World := forwardOrClear .null
def Consumer.putData : Call → World → Option World := forwardOrClear .consumer
def Producer.putData : Call → World → Option World := forwardOrClear .producer
def QCapDevice.putData : Call → World → Option World := forwardOrClear .qcap

def Recorder.putData (call : Call) (w : World) : Option World :=
  forwardOrKeep .recorder call { w with recorderBuffer := w.recorderBuffer ++ [w.list] }

def Dtmf.putData (call : Call) (w : World) : Option World :=
  forwardOrKeep .dtmf call { w with dtmfBuffer := w.dtmfBuffer ++ w.list }

/-- With a next plugin, this one calls `s_iface.put_data`, which is its own. -/
def MD5Generator.putData (call : Call) (w : World) : Option World :=
  match w.nextPlugin .md5 with
  | some _ => call .md5 w
  | none => some { w with list := [] }

/-- The function that `get_interface` stores in `put_data`. -/
def body : Plugin → Call → World → Option World
  | .server => Server.putData
  | .recorder => Recorder.putData
  | .dtmf => Dtmf.putData
  | .md5 => MD5Generator.putData
  | .null => Null.putData
  | .consumer => Consumer.putData
  | .producer => Producer.putData
  | .qcap => QCapDevice.putData

/-- `put_data` with calls nested `fuel` deep at most; `none` when that is not enough. -/
def putData : Nat → Call
  | 0, _, _ => none
  | fuel + 1, p, w => p.body (putData fuel) { w with calls := w.calls ++ [(p, w.list)] }

end Plugin
end Recd2
