import Mathlib.Data.List.Chain
import Mathlib.Data.List.Infix

/-!
# Channels that drop the oldest message

A subscriber of a broadcast channel that falls behind loses the oldest of the messages
it has not received. What it receives afterwards is a suffix of what was sent: the last
message is still there, and neighbours are still neighbours.
-/

namespace MempoolObserver.Channel

variable {α : Type*} {capacity : ℕ} {pending : List α} {message : α} {R : α → α → Prop}

/-- What a subscriber has still to receive after one more message. -/
def send (capacity : ℕ) (pending : List α) (message : α) : List α :=
  (pending ++ [message]).drop (pending.length + 1 - capacity)

theorem length_send_le (capacity : ℕ) (pending : List α) (message : α) :
    (send capacity pending message).length ≤ capacity := by
  simp only [send, List.length_drop, List.length_append, List.length_singleton]
  omega

theorem send_suffix : send capacity pending message <:+ pending ++ [message] :=
  List.drop_suffix _ _

theorem send_ne_nil (holds : 0 < capacity) : send capacity pending message ≠ [] := by
  apply List.ne_nil_of_length_pos
  simp only [send, List.length_drop, List.length_append, List.length_singleton]
  omega

theorem getLast?_send (holds : 0 < capacity) :
    (send capacity pending message).getLast? = some message := by
  have suffix : send capacity pending message <:+ pending ++ [message] := send_suffix
  obtain ⟨dropped, whole⟩ := suffix
  have last := congrArg List.getLast? whole
  rw [List.getLast?_append_of_ne_nil _ (send_ne_nil holds), List.getLast?_concat] at last
  exact last

/-- Neighbours that are received were sent one after the other. -/
theorem isChain_send (chain : (pending ++ [message]).IsChain R) :
    (send capacity pending message).IsChain R :=
  chain.suffix send_suffix

end MempoolObserver.Channel
