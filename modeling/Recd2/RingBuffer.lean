import Recd2.Lib.Fifo
import Recd2.Lib.Ring

/-! The ring buffer (`utils/ring-buffer.h`). A pointer into `m_buffer` is the index of its cell. -/

namespace Recd2

structure RingBuffer (T : Type) (SIZE : Nat) where
  rHead : Nat
  wHead : Nat
  buffer : Vector T SIZE

namespace RingBuffer
variable {T : Type} {SIZE : Nat}

def init (rb : RingBuffer T SIZE) : RingBuffer T SIZE := { rb with rHead := 0, wHead := 0 }

/-- `advanceWriteHead` and `advanceReadHead`; `end()` is the last cell. -/
def advance (SIZE head : Nat) : Nat := Ring.next SIZE head

def write (rb : RingBuffer T SIZE) (t : T) : RingBuffer T SIZE :=
  { rb with buffer := rb.buffer.setIfInBounds rb.wHead t, wHead := advance SIZE rb.wHead }

/-- `none` is `nullptr`. -/
def read (rb : RingBuffer T SIZE) : Option Nat × RingBuffer T SIZE :=
  if rb.rHead = rb.wHead then (none, rb) else (some rb.rHead, { rb with rHead := advance SIZE rb.rHead })

/-- What a pointer into the buffer points to. -/
def deref (rb : RingBuffer T SIZE) (p : Nat) : Option T := rb.buffer[p]?

/-- The distance of the heads, as an `int`. -/
def rwDiff (rb : RingBuffer T SIZE) : Int32 := Int32.ofInt ((rb.wHead : Int) - rb.rHead)

/-- The loop of `readAll`: `n` reads, and the values behind their pointers. `none` is the use of a null pointer. -/
def readLoop : Nat → RingBuffer T SIZE → Option (List T × RingBuffer T SIZE)
  | 0, rb => some ([], rb)
  | n + 1, rb => (rb.read.1.bind rb.deref).bind fun x => (readLoop n rb.read.2).map fun d => (x :: d.1, d.2)

/-- `readAll`: the count, and the array behind `*ret` (`none` is `nullptr`). There is no result where `new` is asked for
    a negative number of elements. -/
def readAll (rb : RingBuffer T SIZE) : Option (Int32 × Option (List T) × RingBuffer T SIZE) :=
  if rb.rwDiff = 0 then some (0, none, rb)
  else if rb.rwDiff < 0 then none
  else (readLoop rb.rwDiff.toInt.toNat rb).map fun d => (rb.rwDiff, some d.1, d.2)

/-- A write, or a read whose value is taken at once. -/
def step (rb : RingBuffer T SIZE) : Fifo.Op T → RingBuffer T SIZE × List (Option T)
  | .write t => (rb.write t, [])
  | .read => (rb.read.2, [rb.read.1.bind rb.deref])

end RingBuffer
end Recd2
