import Recd2.Lib.Utf8
import Recd2.Plugins

/-! The plugin manager (`app/plugin-manager.cpp`): libraries that are loaded under a name, and the two lookups by name,
    with `setName`, `getName` and `get_data` of each plugin of the repository.

    The loads are those that succeed. What `getName` leaves undefined has no result. -/

namespace Recd2

/-! ### Names -/

/-- The text that `strncpy(dest, src, size)` leaves: up to the null character, and `none` where the buffer has no room
    for one, so that a reader runs past its end. -/
def strncpy (size : Nat) (src : String) : Option String :=
  let text := src.toList.takeWhile (· ≠ '\x00')
  if Utf8.bytes text < size then some (String.ofList text) else none

/-- `name` of the interface of each plugin. -/
abbrev Names : Type := Plugin → Option String

abbrev NameCall : Type := Plugin → Names → Option String

namespace Plugin

/-- The copy into `name` of the own interface, which has 256 bytes. -/
def storeName (self : Plugin) (name : String) (w : Names) : Names := fun p => if p = self then strncpy 256 name else w p

def Server.setName : String → Names → Names := storeName .server
def Recorder.setName : String → Names → Names := storeName .recorder
def Dtmf.setName : String → Names → Names := storeName .dtmf
def MD5Generator.setName : String → Names → Names := storeName .md5
def Null.setName : String → Names → Names := storeName .null
def Consumer.setName : String → Names → Names := storeName .consumer
def Producer.setName : String → Names → Names := storeName .producer
def QCapDevice.setName : String → Names → Names := storeName .qcap

def setName : Plugin → String → Names → Names
  | .server => Server.setName
  | .recorder => Recorder.setName
  | .dtmf => Dtmf.setName
  | .md5 => MD5Generator.setName
  | .null => Null.setName
  | .consumer => Consumer.setName
  | .producer => Producer.setName
  | .qcap => QCapDevice.setName

def Server.getName (w : Names) : Option String := w .server
def Recorder.getName (w : Names) : Option String := w .recorder
def MD5Generator.getName (w : Names) : Option String := w .md5
def Null.getName (w : Names) : Option String := w .null
def Consumer.getName (w : Names) : Option String := w .consumer
def Producer.getName (w : Names) : Option String := w .producer
def QCapDevice.getName (w : Names) : Option String := w .qcap

/-- `Instance().getName()`, which is the function itself. -/
def Dtmf.getName (call : NameCall) (w : Names) : Option String := call .dtmf w

def nameBody (call : NameCall) : Plugin → Names → Option String
  | .server => Server.getName
  | .recorder => Recorder.getName
  | .dtmf => Dtmf.getName call
  | .md5 => MD5Generator.getName
  | .null => Null.getName
  | .consumer => Consumer.getName
  | .producer => Producer.getName
  | .qcap => QCapDevice.getName

/-- `getName` with calls nested `fuel` deep at most; `none` when that is not enough, or the buffer is not terminated. -/
def getName : Nat → NameCall
  | 0, _, _ => none
  | fuel + 1, p, w => nameBody (getName fuel) p w

/-- `get_data`: the plugin whose instance it points to, or null. -/
def getData : Plugin → Option Plugin
  | .server => some .server
  | .recorder => some .recorder
  | .consumer => some .consumer
  | .dtmf | .md5 | .null | .producer | .qcap => none

end Plugin

/-! ### The manager -/

structure RecPluginMngr where
  pluginLinks : InterfaceList Plugin
  names : Names

namespace RecPluginMngr

/-- The buffers are zero before the first load. -/
def new : RecPluginMngr := ⟨.empty, fun _ => some ""⟩

def loadLibrary (m : RecPluginMngr) (load : Plugin × String) : RecPluginMngr where
  pluginLinks := m.pluginLinks.loadLibrary load.1
  names := load.1.setName load.2 m.names

/-- The loop of the lookups, for `fuel` rounds at most: the result for the first interface with the name, and null behind
    the last one. -/
def lookup (m : RecPluginMngr) (result : Plugin → Option Plugin) (name : String) :
    Nat → Option Plugin → Option (Option Plugin)
  | _, none => some none
  | 0, some _ => none
  | fuel + 1, some it =>
    (Plugin.getName fuel it m.names).bind fun found =>
      if found = name then some (result it) else lookup m result name fuel (m.pluginLinks.nextPlugin it)

/-- The interface of a name. -/
def getInterface (m : RecPluginMngr) (iface : String) (fuel : Nat) : Option (Option Plugin) :=
  m.lookup some iface fuel m.pluginLinks.head

/-- `get_data` of the interface of a name, which is a C string here. -/
def getPluginByName (m : RecPluginMngr) (fname : String) (fuel : Nat) : Option (Option Plugin) :=
  m.lookup Plugin.getData fname fuel m.pluginLinks.head

end RecPluginMngr
end Recd2
