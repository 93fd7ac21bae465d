import LuaSymbols.Lock

/-!
# The books of the lock

Threads call the lock in any order. What the lock really is, `owner` and `count`, follows
the calls that were granted. The books follow all calls, and a release that is refused has
been booked by then. So the books lag behind the truth by one level for each refusal, for
good (`Booked`), and they are right as long as there was none (`books_after_calls`).
-/

namespace LuaSymbols.Lock

/-- What a thread does with the lock. An `attempt` gives up when its time is over; `acquire`
and `enter` wait until the lock is free, and leave it alone until then. -/
inductive Call where
  | acquire (t : Thread)
  | attempt (t : Thread)
  | release (t : Thread)
  | enter (t : Thread)
  | leave (t : Thread)
  deriving DecidableEq, Repr

/-- The lock after a call. -/
def Call.run (l : Lock) : Call → Lock
  | acquire t | attempt t | enter t => (l.acquire t).2
  | release t | leave t => (l.release t).2

/-- A release by a thread that does not hold the lock. -/
def Call.isRefused (l : Lock) : Call → Bool
  | acquire _ | attempt _ | enter _ => false
  | release t | leave t => !(l.release t).1.isOk

/-- The lock after calls, one by one. -/
def runCalls (l : Lock) (calls : List Call) : Lock := calls.foldl Call.run l

/-- How many of the calls are refused. -/
def refusals (l : Lock) : List Call → Nat
  | [] => 0
  | c :: calls => (if c.isRefused l then 1 else 0) + refusals (c.run l) calls

/-- The lock has refused `n` releases. It has an owner if it is taken at all, the depth is
short of the truth by one for each refusal, and a time is noted above depth zero. -/
structure Booked (n : Nat) (l : Lock) : Prop where
  owned : l.owner ≠ none ↔ 0 < l.count
  depth : l.depth = l.count - n
  stamped : l.stamped = true ↔ 0 < l.depth

section
variable {l : Lock} {n : Nat} {t : Thread}

theorem isOk_release : (l.release t).1.isOk = decide (l.owner = some t) := by
  unfold release
  split
  · next h => simp [h, Except.isOk, Except.toBool]
  · next h => simp [h, Except.isOk, Except.toBool]

/-! ## One call -/

theorem unlock_eq (l : Lock) : l.unlock =
    { l with owner := if 1 < l.count then l.owner else none, count := l.count - 1 } := by
  obtain ⟨owner, count, depth, stamped⟩ := l
  match count with
  | 0 => rfl
  | 1 => rfl
  | n + 2 => simp [unlock]

theorem acquire_of_not_granted (h : (l.acquire t).1 = false) : (l.acquire t).2 = l := by
  unfold acquire at h ⊢
  split at h
  · cases h
  · next hfree => rw [if_neg hfree]

theorem release_of_refused (h : (l.release t).1.isOk = false) :
    (l.release t).2 = l.bookRelease := by
  rw [isOk_release, decide_eq_false_iff_not] at h
  rw [release, if_neg h]

namespace Booked

theorem new : Booked 0 {} := by
  refine ⟨?_, ?_, ?_⟩ <;> decide

theorem isHeld_iff (h : Booked n l) : l.isHeld = true ↔ n < l.count := by
  have hdepth := h.depth
  rw [isHeld, h.stamped]
  omega

/-- The next level is booked where the time is noted at depth one. -/
theorem acquire (h : Booked n l) (t : Thread) : Booked n (l.acquire t).2 := by
  have hdepth := h.depth
  have hstamped := h.stamped
  unfold Lock.acquire
  split
  · refine ⟨by simp, ?_, ?_⟩
    · show l.depth + 1 = (l.count + 1 : Nat) - (n : Int)
      omega
    · show (l.stamped || decide (l.depth = 0)) = true ↔ 0 < l.depth + 1
      rw [Bool.or_eq_true, decide_eq_true_eq, hstamped]
      omega
  · exact h

theorem stamped_bookRelease (h : Booked n l) :
    l.bookRelease.stamped = true ↔ 0 < l.bookRelease.depth := by
  have hstamped := h.stamped
  show (l.stamped && decide (l.depth - 1 ≠ 0)) = true ↔ 0 < l.depth - 1
  rw [Bool.and_eq_true, decide_eq_true_eq, hstamped]
  omega

/-- The owner gives back a level, in the books and in truth. -/
theorem granted (h : Booked n l) (hown : l.owner = some t) : Booked n (l.release t).2 := by
  have hdepth := h.depth
  have hpos : 0 < l.count := h.owned.1 (by simp [hown])
  rw [Lock.release, if_pos hown, unlock_eq]
  refine ⟨?_, ?_, h.stamped_bookRelease⟩
  · show (if 1 < l.count then l.owner else none) ≠ none ↔ 0 < l.count - 1
    split
    · simp only [hown, ne_eq, reduceCtorEq, not_false_eq_true, true_iff]
      omega
    · simp only [ne_eq, not_true_eq_false, false_iff]
      omega
  · show l.depth - 1 = (l.count - 1 : Nat) - (n : Int)
    omega

/-- A refused release is booked, and nothing else happens. -/
theorem refused (h : Booked n l) : Booked (n + 1) l.bookRelease := by
  have hdepth := h.depth
  refine ⟨h.owned, ?_, h.stamped_bookRelease⟩
  show l.depth - 1 = l.count - (n + 1 : Nat)
  omega

theorem release (h : Booked n l) (t : Thread) :
    Booked (n + if !(l.release t).1.isOk then 1 else 0) (l.release t).2 := by
  cases hok : (l.release t).1.isOk with
  | true => exact h.granted (by simpa [isOk_release] using hok)
  | false =>
    rw [release_of_refused hok]
    exact h.refused

theorem call (h : Booked n l) (c : Call) :
    Booked (n + if c.isRefused l then 1 else 0) (c.run l) := by
  cases c with
  | acquire t | attempt t | enter t => exact h.acquire t
  | release t | leave t => exact h.release t

/-! ## Runs of calls -/

theorem calls (h : Booked n l) (calls : List Call) :
    Booked (n + refusals l calls) (runCalls l calls) := by
  induction calls generalizing n l with
  | nil => exact h
  | cons c calls ih =>
    have hrest := ih (h.call c)
    rw [Nat.add_assoc] at hrest
    exact hrest

end Booked

end

/-- **What the books say.** After any calls of any threads, of which `n` were refused: the
depth is the count less `n`, and the lock is said to be held if more than `n` levels are
taken. So depth and count are equal, and with them the answer whether someone holds the lock
is right, exactly if no release was refused so far; that answer alone is right unless the
lock is taken and not more than `n` times. An acquire that is not granted leaves the lock as
it is. A release that is refused leaves owner and count, and takes a level off the depth. -/
theorem books_after_calls (calls : List Call) :
    let l := runCalls {} calls
    let n := refusals {} calls
    (l.owner ≠ none ↔ 0 < l.count) ∧ l.depth = l.count - n ∧ (l.isHeld = true ↔ n < l.count) ∧
    (l.depth = l.count ∧ (l.isHeld = true ↔ l.owner ≠ none) ↔ n = 0) ∧
    ((l.isHeld = true ↔ l.owner ≠ none) ↔ l.count = 0 ∨ n < l.count) ∧
    (∀ t, (l.acquire t).1 = false → (l.acquire t).2 = l) ∧
    ∀ t, (l.release t).1.isOk = false →
      (l.release t).2.owner = l.owner ∧ (l.release t).2.count = l.count ∧
      (l.release t).2.depth = l.depth - 1 ∧
      ((l.release t).2.isHeld = true ↔ n + 1 < l.count) := by
  intro l n
  have hbooked : Booked n l := by simpa [n, l] using Booked.new.calls calls
  have hdepth := hbooked.depth
  have howned := hbooked.owned
  have hheld := hbooked.isHeld_iff
  refine ⟨howned, hdepth, hheld, ?_, ?_, fun t => acquire_of_not_granted, fun t ht => ?_⟩
  · rw [hheld, howned]
    omega
  · rw [hheld, howned]
    omega
  · rw [release_of_refused ht]
    exact ⟨rfl, rfl, rfl, hbooked.refused.isHeld_iff⟩

/-- A thread holds the lock, and another one releases it. That is refused, and from then on
nobody is said to hold the lock. -/
theorem refused_release_forgets_owner :
    (Call.release 1).isRefused (runCalls {} [.acquire 0]) = true ∧
      (runCalls {} [.acquire 0]).depth = 1 ∧ (runCalls {} [.acquire 0]).isHeld = true ∧
      (runCalls {} [.acquire 0, .release 1]).owner = some 0 ∧
      (runCalls {} [.acquire 0, .release 1]).count = 1 ∧
      (runCalls {} [.acquire 0, .release 1]).depth = 0 ∧
      (runCalls {} [.acquire 0, .release 1]).isHeld = false := by
  decide

end LuaSymbols.Lock
