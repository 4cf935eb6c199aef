import Recd2.Config

/-! The application (`app/sapplication.cpp`): the options of its constructor, and the list that `loadPlugins` goes
    through. The daemon, the servers and the texts for the log are outside this module. -/

namespace Recd2.SApplication
open RecorderConfig

/-! ### The options -/

/-- `-c` with the argument behind it, which is null behind the last one. A file that cannot be read leaves the
    defaults. -/
def loadFile (files : Files) (rest : List String) (c : RecorderConfig) : RecorderConfig :=
  match rest.head? with
  | some fname =>
    let (c, setup) := c.fastLoadFile files fname
    if !setup then c.loadDefaults else c
  | none => c

/-- The loop over the arguments. It does not step over the argument of `-c`. -/
def argLoop (files : Files) : List String → RecorderConfig → RecorderConfig
  | [], c => c
  | arg :: rest, c =>
    let c :=
      if arg = "-c" ∨ arg = "--config" then loadFile files rest c
      else if arg = "-d" ∨ arg = "--daemon" then c.loadDefaults
      else c
    argLoop files rest c

/-- The settings after the constructor. -/
def setup (files : Files) (argv : List String) (c : RecorderConfig) : RecorderConfig :=
  if argv.length = 1 then c.loadDefaults else argLoop files argv c

/-! ### `loadPlugins` -/

/-- The path and the name of a call of `RecPluginMngr::loadLibrary`. -/
structure LoadCall where
  path : String
  name : String
  deriving DecidableEq, Repr

/-- The loop body: the calls for one pair of the list. The path is taken three places behind the name; `none` where
    `list.at` leaves the list. -/
def loadPlugin (list : PairList) (it : Attrib) (i : Nat) : Option (List LoadCall) :=
  if it.type1 = "name" ∧ it.type2 ≠ "" then
    if list.length < i + 3 then some []
    else list[i + 3]?.map fun path => [⟨path.type2, it.type2⟩]
  else some []

def loadPlugins (c : RecorderConfig) : Option (List LoadCall) :=
  let list := c.getTagPairs "Plugin"
  (list.zipIdx.mapM fun (it, i) => loadPlugin list it i).map List.flatten

end Recd2.SApplication
