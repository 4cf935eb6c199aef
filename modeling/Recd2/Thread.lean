import Mathlib.Data.Fintype.Defs
import Mathlib.Logic.Function.Basic

/-! The locks of `utils/thread.cpp`. A step of a thread is one access to a shared field, or one operation on a mutex or a
    condition variable, and the steps of the threads come in any order; a step that a thread cannot take changes nothing.
    The threads are the elements of any type. -/

namespace Recd2
variable {T : Type} [DecidableEq T]

/-! ### `PMutex` -/

/-- Where a thread stands: outside, in `lock` behind the assignment, behind a `lock` that returned, in `unlock` behind
    the assignment, or in a second `lock`, which does not return. -/
inductive PMutex.At where
  | idle
  | locking
  | holding
  | unlocking
  | relocking
  deriving DecidableEq

/-- `mutex` is the thread that has `m_mutex`. -/
structure PMutex (T : Type) where
  isLocked : Bool
  mutex : Option T
  pos : T → PMutex.At

namespace PMutex

/-- A call of `lock` or `unlock` with its first statement, or the next step of a running call. -/
inductive Act (T : Type) where
  | lock (t : T)
  | unlock (t : T)
  | go (t : T)

def new : PMutex T := ⟨false, none, fun _ => .idle⟩

def locked (m : PMutex T) : Bool := m.isLocked

def move (m : PMutex T) (t : T) (p : At) : PMutex T := { m with pos := Function.update m.pos t p }

/-- The next state, and the values that `is_locked` was set to. A thread unlocks only what it holds. -/
def step (m : PMutex T) : Act T → PMutex T × List Bool
  | .lock t =>
    match m.pos t with
    | .idle => ({ m.move t .locking with isLocked := true }, [true])
    | .holding => ({ m.move t .relocking with isLocked := true }, [true])
    | _ => (m, [])
  | .unlock t =>
    match m.pos t with
    | .holding => ({ m.move t .unlocking with isLocked := false }, [false])
    | _ => (m, [])
  | .go t =>
    match m.pos t, m.mutex with
    | .locking, none => ({ m.move t .holding with mutex := some t }, [])
    | .unlocking, _ => ({ m.move t .idle with mutex := none }, [])
    | _, _ => (m, [])

end PMutex

/-! ### `BSemaphore` -/

/-- Where a thread stands. In `post`: in front of `Lock`; with the lock in front of the test of `m_count`, where `woken`
    says that it was in `pthread_cond_wait` before; in `pthread_cond_wait`; woken in it; in front of `Unlock`. In `wait`:
    in front of `Lock`; with the lock in front of the increment; in front of `Unlock`; in front of the signal. -/
inductive BSemaphore.At where
  | idle
  | posting
  | testing (woken : Bool)
  | blocked
  | woken
  | posted
  | waiting
  | counting
  | counted (prevVal : Int32)
  | signalling
  deriving DecidableEq

/-- `lock` is the thread that has `m_lock`. -/
structure BSemaphore (T : Type) where
  count : Int32
  lock : Option T
  pos : T → BSemaphore.At

namespace BSemaphore

/-- A call of `post` or `wait`; the next step of a running call; the signal of a thread, with the waiter that it wakes;
    or a waiter that wakes without a signal. -/
inductive Act (T : Type) where
  | post (t : T)
  | wait (t : T)
  | go (t : T)
  | signal (t : T) (waiter : Option T)
  | spurious (t : T)

def new : BSemaphore T := ⟨0, none, fun _ => .idle⟩

def move (s : BSemaphore T) (t : T) (p : At) : BSemaphore T := { s with pos := Function.update s.pos t p }

/-- A thread gets the lock, if it is free. -/
def acquire (s : BSemaphore T) (t : T) (p : At) : BSemaphore T :=
  if s.lock = none then { s.move t p with lock := some t } else s

def release (s : BSemaphore T) (t : T) (p : At) : BSemaphore T := { s.move t p with lock := none }

/-- The next step of a running call. -/
def go (s : BSemaphore T) (t : T) : BSemaphore T :=
  match s.pos t with
  | .posting => s.acquire t (.testing false)
  | .testing _ => if s.count ≤ 0 then s.release t .blocked else { s.move t .posted with count := s.count - 1 }
  | .woken => s.acquire t (.testing true)
  | .posted => s.release t .idle
  | .waiting => s.acquire t .counting
  | .counting => { s.move t (.counted s.count) with count := s.count + 1 }
  | .counted prevVal => s.release t (if prevVal = 0 then .signalling else .idle)
  | .idle | .blocked | .signalling => s

/-- `pthread_cond_signal` wakes one of the waiters, if there are any. -/
def step [Fintype T] (s : BSemaphore T) : Act T → BSemaphore T
  | .post t => if s.pos t = .idle then s.move t .posting else s
  | .wait t => if s.pos t = .idle then s.move t .waiting else s
  | .go t => s.go t
  | .signal t (some u) => if s.pos t = .signalling ∧ s.pos u = .blocked then (s.move t .idle).move u .woken else s
  | .signal t none => if s.pos t = .signalling ∧ ∀ u, s.pos u ≠ .blocked then s.move t .idle else s
  | .spurious t => if s.pos t = .blocked then s.move t .woken else s

end BSemaphore

/-! ### `SpinLock` -/

/-- Where a thread stands. In `tryLock`: in front of the read of `threadId`, of the compare-and-swap, of the read of
    `m_lckCount`, or of its write. In `unlock`: in front of the read of `threadId`, of the read of `m_lckCount`, of its
    write, of the second read, or of the compare-and-swap. -/
inductive SpinLock.At where
  | idle
  | lockTest
  | lockSwap
  | lockRead
  | lockWrite (lckCount : UInt32)
  | unlockTest
  | unlockRead
  | unlockWrite (lckCount : UInt32)
  | unlockReread
  | unlockSwap
  deriving DecidableEq

structure SpinLock (T : Type) where
  threadId : UInt64
  lckCount : UInt32
  pos : T → SpinLock.At

/-- What `pthread_self` returns in each thread. -/
structure ThreadIds (T : Type) where
  currentThread : T → UInt64
  injective : Function.Injective currentThread
  ne_zero : ∀ t, currentThread t ≠ 0

namespace SpinLock

inductive Act (T : Type) where
  | tryLock (t : T)
  | unlock (t : T)
  | go (t : T)

def Act.thread : Act T → T
  | .tryLock t => t
  | .unlock t => t
  | .go t => t

/-- A `tryLock` that returned, an `unlock` that began, and an `unlock` that returned. -/
inductive Event (T : Type) where
  | locked (t : T) (success : Bool)
  | unlocking (t : T)
  | unlocked (t : T) (success : Bool)
  deriving DecidableEq

/-- The lock with both fields zero. -/
def new : SpinLock T := ⟨0, 0, fun _ => .idle⟩

def move (l : SpinLock T) (t : T) (p : At) : SpinLock T := { l with pos := Function.update l.pos t p }

/-- The next step of a running call. -/
def go (ids : ThreadIds T) (l : SpinLock T) (t : T) : SpinLock T × List (Event T) :=
  match l.pos t with
  | .lockTest => (l.move t (if l.threadId = ids.currentThread t then .lockRead else .lockSwap), [])
  | .lockSwap =>
    if l.threadId = 0 then ({ l.move t .lockRead with threadId := ids.currentThread t }, [])
    else (l.move t .idle, [.locked t false])
  | .lockRead => (l.move t (.lockWrite l.lckCount), [])
  | .lockWrite lckCount => ({ l.move t .idle with lckCount := lckCount + 1 }, [.locked t true])
  | .unlockTest =>
    if l.threadId = ids.currentThread t then (l.move t .unlockRead, []) else (l.move t .idle, [.unlocked t false])
  | .unlockRead => (l.move t (.unlockWrite l.lckCount), [])
  | .unlockWrite lckCount => ({ l.move t .unlockReread with lckCount := lckCount - 1 }, [])
  | .unlockReread => if l.lckCount ≠ 0 then (l.move t .idle, [.unlocked t true]) else (l.move t .unlockSwap, [])
  | .unlockSwap =>
    if l.threadId = ids.currentThread t then ({ l.move t .idle with threadId := 0 }, [.unlocked t true])
    else (l.move t .idle, [.unlocked t false])
  | .idle => (l, [])

def step (ids : ThreadIds T) (l : SpinLock T) : Act T → SpinLock T × List (Event T)
  | .tryLock t => if l.pos t = .idle then (l.move t .lockTest, []) else (l, [])
  | .unlock t => if l.pos t = .idle then (l.move t .unlockTest, [.unlocking t]) else (l, [])
  | .go t => l.go ids t

end SpinLock
end Recd2
