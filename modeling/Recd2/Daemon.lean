import Recd2.Plugins

/-! The end of the process by a signal: the handler of `app/unix/daemon.cpp`, `SApplication::deinit`, and what the static
    list of interfaces does when it is destroyed. Recorded are the calls of `deinit`, which return and change no link. -/

namespace Recd2
namespace InterfaceList
variable {α : Type}

/-- `clear`, for `fuel` rounds at most: the plugins whose `deinit` it calls; `none` when that is not enough. An interface
    lies in its plugin and not on the heap, so that what its `delete` does is not defined. Where it does not return, the
    process is at its end. -/
def clear (deleteReturns : α → Bool) (nextPlugin : α → Option α) : Nat → Option α → Option (List α)
  | _, none => some []
  | 0, some _ => none
  | fuel + 1, some tmp =>
    if deleteReturns tmp then (clear deleteReturns nextPlugin fuel (nextPlugin tmp)).map (tmp :: ·) else some [tmp]

/-- `SApplication::deinit`. -/
def deinit (fuel : Nat) (l : InterfaceList α) : Option (List α) := walk l.nextPlugin fuel l.head

/-- `testSig`. The handler is attached where the application is registered, so that there is one to call. `exit` destroys
    the list, whose destructor calls `clear`. -/
def testSig (deleteReturns : α → Bool) (fuel : Nat) (l : InterfaceList α) : Option (List α) := do
  let first ← l.deinit fuel
  let second ← clear deleteReturns l.nextPlugin fuel l.head
  return first ++ second

end InterfaceList
end Recd2
