import Mathlib.Data.List.Perm.Basic

/-!
# Typed message queues

A System V message queue: one list of messages in the order they were sent, each with a type. A
receiver names a type and takes the first message of that type. `mailbox ty q` is what the
receivers of type `ty` are going to read; sending appends to one mailbox, receiving takes the head
of one mailbox, and every other mailbox stays as it is (`mailbox_send`, `recv_spec`).
-/

namespace EltexPractice

/-- A queue of messages with a type, in the order they were sent. -/
abbrev MsgQueue (τ β : Type*) := List (τ × β)

namespace MsgQueue

variable {τ β : Type*} [DecidableEq τ]

/-- `msgsnd`: the message goes to the end of the queue. -/
def send (q : MsgQueue τ β) (ty : τ) (text : β) : MsgQueue τ β := q ++ [(ty, text)]

/-- `msgrcv` with a positive type: the first message of that type, and the rest of the queue. -/
def recv (ty : τ) : MsgQueue τ β → Option (β × MsgQueue τ β)
  | [] => none
  | m :: q =>
    if m.1 = ty then some (m.2, q)
    else match recv ty q with
      | none => none
      | some (text, q') => some (text, m :: q')

/-- The texts queued with type `ty`, in order. -/
def mailbox (ty : τ) (q : MsgQueue τ β) : List β := (q.filter fun m => m.1 = ty).map (·.2)

@[simp] theorem mailbox_nil (ty : τ) : mailbox ty ([] : MsgQueue τ β) = [] := rfl

theorem mailbox_cons (ty : τ) (m : τ × β) (q : MsgQueue τ β) :
    mailbox ty (m :: q) = if m.1 = ty then m.2 :: mailbox ty q else mailbox ty q := by
  rw [mailbox, List.filter_cons]
  split <;> simp_all [mailbox]

theorem mailbox_append (ty : τ) (q q' : MsgQueue τ β) :
    mailbox ty (q ++ q') = mailbox ty q ++ mailbox ty q' := by
  simp [mailbox]

theorem mailbox_send (ty : τ) (q : MsgQueue τ β) (ty' : τ) (text : β) :
    mailbox ty (q.send ty' text) = mailbox ty q ++ if ty' = ty then [text] else [] := by
  rw [send, mailbox_append, mailbox_cons, mailbox_nil]

/-- **Receiving takes the head of one mailbox** and leaves the others alone. -/
theorem recv_spec {ty : τ} {q q' : MsgQueue τ β} {text : β} (h : recv ty q = some (text, q')) :
    mailbox ty q = text :: mailbox ty q' ∧ ∀ ty', ty' ≠ ty → mailbox ty' q = mailbox ty' q' := by
  induction q generalizing q' with
  | nil => cases h
  | cons m q ih =>
    rw [recv] at h
    split at h
    · rename_i hm
      obtain ⟨rfl, rfl⟩ := Prod.mk.inj (Option.some.inj h)
      refine ⟨by rw [mailbox_cons, if_pos hm], fun ty' hty => ?_⟩
      rw [mailbox_cons, if_neg fun e => hty (e.symm.trans hm)]
    · rename_i hm
      split at h
      · cases h
      · rename_i text' q'' hrec
        obtain ⟨rfl, rfl⟩ := Prod.mk.inj (Option.some.inj h)
        obtain ⟨h₁, h₂⟩ := ih hrec
        refine ⟨by rw [mailbox_cons, mailbox_cons, if_neg hm, if_neg hm, h₁], fun ty' hty => ?_⟩
        rw [mailbox_cons, mailbox_cons, h₂ ty' hty]

/-- The message that is taken and the others. -/
theorem recv_perm {ty : τ} {q q' : MsgQueue τ β} {text : β} (h : recv ty q = some (text, q')) :
    q.Perm ((ty, text) :: q') := by
  induction q generalizing q' with
  | nil => cases h
  | cons m q ih =>
    rw [recv] at h
    split at h
    · rename_i hm
      obtain ⟨rfl, rfl⟩ := Prod.mk.inj (Option.some.inj h)
      rw [← hm]
    · split at h
      · cases h
      · rename_i text' q'' hrec
        obtain ⟨rfl, rfl⟩ := Prod.mk.inj (Option.some.inj h)
        exact ((ih hrec).cons m).trans (List.Perm.swap ..)

end MsgQueue

end EltexPractice
