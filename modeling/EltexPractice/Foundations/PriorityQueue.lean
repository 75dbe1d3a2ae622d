import Mathlib.Data.List.Sort

/-!
# Message queues with priorities

A POSIX message queue: the messages with their priorities, in the order in which they will be
received. A message goes behind the messages of its own and of higher priorities and in front of
all others, so it overtakes what is queued with a lower priority (`send_eq_cons`) and is last when
nothing lower is queued (`send_eq_append`).
-/

namespace EltexPractice

/-- A queue of messages with a priority, the next one to be received first. -/
abbrev PriorityQueue (β : Type*) := List (ℕ × β)

namespace PriorityQueue

variable {β : Type*}

/-- `mq_send`: in front of the first message with a lower priority. -/
def send (q : PriorityQueue β) (prio : ℕ) (message : β) : PriorityQueue β :=
  List.orderedInsert (fun a b => b.1 < a.1) (prio, message) q

theorem mem_send {q : PriorityQueue β} {prio : ℕ} {message : β} {m : ℕ × β} :
    m ∈ q.send prio message ↔ m = (prio, message) ∨ m ∈ q :=
  List.mem_orderedInsert _

/-- A message that nothing queued is below is received last. -/
theorem send_eq_append {q : PriorityQueue β} {prio : ℕ} (h : ∀ m ∈ q, prio ≤ m.1) (message : β) :
    q.send prio message = q ++ [(prio, message)] := by
  induction q with
  | nil => rfl
  | cons m q ih =>
    have hm : ¬ m.1 < prio := not_lt.2 (h m List.mem_cons_self)
    rw [send, List.orderedInsert, if_neg hm, List.cons_append]
    exact congrArg _ (ih fun m' hm' => h m' (List.mem_cons_of_mem _ hm'))

/-- A message above everything queued is received next. -/
theorem send_eq_cons {q : PriorityQueue β} {prio : ℕ} (h : ∀ m ∈ q, m.1 < prio) (message : β) :
    q.send prio message = (prio, message) :: q := by
  cases q with
  | nil => rfl
  | cons m q => rw [send, List.orderedInsert, if_pos (h m List.mem_cons_self)]

end PriorityQueue

end EltexPractice
