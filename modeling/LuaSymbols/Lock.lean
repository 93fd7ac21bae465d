/-!
# The index lock

A re-entrant lock that keeps books of its own beside the ground truth. The truth
is `owner` and `count`: the thread that holds the lock and how often it took it.
The books are `depth`, changed at every call, and `stamped`, which says that a
time of acquisition is noted. A release changes the books before it is refused.
-/

namespace LuaSymbols

abbrev Thread := Nat

structure Lock where
  owner : Option Thread := none
  count : Nat := 0
  depth : Int := 0
  stamped : Bool := false
  deriving DecidableEq, Repr

namespace Lock

/-- Whether a thread can take the lock now. -/
def isFree (l : Lock) (t : Thread) : Bool := l.owner = none || l.owner = some t

/-- What the books say about whether someone holds the lock. -/
def isHeld (l : Lock) : Bool := l.stamped

/-- Tries to take the lock; the answer says whether it was granted in time. -/
def acquire (l : Lock) (t : Thread) : Bool × Lock :=
  if l.isFree t then
    (true, ⟨some t, l.count + 1, l.depth + 1, l.stamped || l.depth = 0⟩)
  else (false, l)

inductive Refusal where
  | notOwner
  deriving DecidableEq, Repr

def Refusal.message : Refusal → String
  | .notOwner => "cannot release un-acquired lock"

/-- One level less in the books. -/
def bookRelease (l : Lock) : Lock :=
  { l with depth := l.depth - 1, stamped := l.stamped && l.depth - 1 ≠ 0 }

/-- One level less for the owner, which frees the lock at the last. -/
def unlock (l : Lock) : Lock :=
  match l.count with
  | n + 2 => { l with count := n + 1 }
  | _ => { l with owner := none, count := 0 }

/-- Gives back one level. Only the owner may. -/
def release (l : Lock) (t : Thread) : Except Refusal Unit × Lock :=
  if l.owner = some t then (.ok (), l.bookRelease.unlock) else (.error .notOwner, l.bookRelease)

end Lock

end LuaSymbols
