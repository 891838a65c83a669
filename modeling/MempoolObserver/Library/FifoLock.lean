import Mathlib.Data.List.Basic

/-!
# A lock that serves its waiters in order

A released lock is handed to the client that has waited longest, so it is free only while nobody
waits. A client that waits is served after those ahead of it and before all that come later.
-/

namespace MempoolObserver

/-- A lock, who holds it and who waits, the longest first. -/
structure FifoLock (α : Type*) where
  holder : Option α
  waiting : List α
  idle : holder = none → waiting = []

namespace FifoLock

variable {α : Type*} {lock : FifoLock α} {a b : α} {ahead : List α}

def free : FifoLock α := ⟨none, [], fun _ => rfl⟩

/-- Takes the lock if it is free, and waits for it otherwise. -/
def request (a : α) (lock : FifoLock α) : FifoLock α :=
  match lock with
  | ⟨none, waiting, _⟩ => ⟨some a, waiting, nofun⟩
  | ⟨some b, waiting, _⟩ => ⟨some b, waiting ++ [a], nofun⟩

/-- Hands the lock to the first that waits. -/
def release (lock : FifoLock α) : FifoLock α :=
  match lock.waiting with
  | [] => free
  | a :: rest => ⟨some a, rest, nofun⟩

/-- Stops waiting. -/
def cancel [DecidableEq α] (a : α) (lock : FifoLock α) : FifoLock α where
  holder := lock.holder
  waiting := lock.waiting.erase a
  idle free := by rw [lock.idle free, List.erase_nil]

/-- A client waits, behind those ahead of it. -/
def WaitsBehind (lock : FifoLock α) (a : α) (ahead : List α) : Prop :=
  ∃ later, lock.waiting = ahead ++ a :: later

theorem request_of_free (available : lock.holder = none) :
    (lock.request a).holder = some a ∧ (lock.request a).waiting = [] := by
  obtain ⟨holder, waiting, idle⟩ := lock
  subst available
  exact ⟨rfl, idle rfl⟩

theorem request_of_held (held : lock.holder ≠ none) :
    (lock.request a).holder = lock.holder ∧ (lock.request a).waiting = lock.waiting ++ [a] := by
  obtain ⟨_ | b, waiting, idle⟩ := lock
  · exact absurd rfl held
  · exact ⟨rfl, rfl⟩

theorem waitsBehind_request (held : lock.holder ≠ none) :
    (lock.request a).WaitsBehind a lock.waiting := ⟨[], (request_of_held held).2⟩

namespace WaitsBehind

theorem held (waits : lock.WaitsBehind a ahead) : lock.holder ≠ none := by
  intro available
  obtain ⟨later, queue⟩ := waits
  exact absurd (queue.symm.trans (lock.idle available)) (by simp)

theorem request (waits : lock.WaitsBehind a ahead) (b : α) :
    (lock.request b).WaitsBehind a ahead := by
  obtain ⟨later, queue⟩ := waits
  refine ⟨later ++ [b], ?_⟩
  rw [(request_of_held (held ⟨later, queue⟩)).2, queue]
  simp

theorem release_nil (waits : lock.WaitsBehind a []) : lock.release.holder = some a := by
  obtain ⟨later, queue⟩ := waits
  rw [release, queue]
  rfl

theorem release_cons (waits : lock.WaitsBehind a (b :: ahead)) :
    lock.release.holder = some b ∧ lock.release.WaitsBehind a ahead := by
  obtain ⟨later, queue⟩ := waits
  rw [release, queue]
  exact ⟨rfl, later, rfl⟩

end WaitsBehind

end FifoLock

end MempoolObserver
