import Recd2.Config

/-! The options of the plugins: the loops of `Recorder::main_proxy` (`recorder/recorder.cpp`) and `Server::p_main`
    (`udp-streamer/server.cpp`) over the argument vector. -/

namespace Recd2
open RecorderConfig

/-- The call of `fastLoadFile` with `argv[i + 1]`, which is null behind the last argument. -/
def loadNext (files : Files) (rest : List String) (c : RecorderConfig) : RecorderConfig :=
  match rest.head? with
  | some fname => (c.fastLoadFile files fname).1
  | none => c

/-- The loop. The second `strcmp` is not compared with zero, and there is no `break`. -/
def Recorder.proxyLoop (files : Files) : List String → RecorderConfig → RecorderConfig
  | [], c => c
  | arg :: rest, c =>
    Recorder.proxyLoop files rest (if arg = "-c" ∨ arg ≠ "--config" then loadNext files rest c else c)

def Recorder.mainProxy (files : Files) (argv : List String) (c : RecorderConfig) : RecorderConfig × Int32 :=
  if argv.length < 2 then (c, -1) else (Recorder.proxyLoop files argv c, 0)

def Server.mainLoop (files : Files) : List String → RecorderConfig → RecorderConfig
  | [], c => c
  | arg :: rest, c =>
    if (arg = "-c" ∨ arg = "--config") ∧ rest ≠ [] then loadNext files rest c else Server.mainLoop files rest c

def Server.pMain (files : Files) (argv : List String) (c : RecorderConfig) : RecorderConfig × Int32 :=
  if argv.length < 2 then (c, -1) else (Server.mainLoop files argv c, 0)

end Recd2
