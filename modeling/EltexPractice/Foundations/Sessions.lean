import EltexPractice.Foundations.OrderedSet
import Mathlib.Data.List.Induction
import Mathlib.Data.List.TakeWhile

/-!
# Sessions of many parties

A history of messages and shutdowns of any number of parties. `senders` lists the parties in the
order of their first message, `since e` counts the messages of `e` after its last shutdown. A
server with room for `cap` parties serves the first `cap` senders (`served`); what one more event
does to `served` is an insertion into an ordered set (`served_concat_message`).
-/

namespace EltexPractice.Sessions

variable {α : Type*} [DecidableEq α]

/-- A message or a shutdown of a party. -/
inductive Event (α : Type*)
  | message (e : α)
  | shutdown (e : α)
  deriving DecidableEq

namespace Event

/-- The party. -/
def party : Event α → α
  | message e => e
  | shutdown e => e

/-- The party of a message. -/
def sender? : Event α → Option α
  | message e => some e
  | shutdown _ => none

end Event

/-- The parties in the order of their first message. -/
def senders (h : List (Event α)) : List α := (h.filterMap Event.sender?).eraseDups

/-- The number of messages of `e` since its last shutdown, or since the start. -/
def since (e : α) (h : List (Event α)) : ℕ :=
  ((h.reverse.filter (·.party = e)).takeWhile (· = .message e)).length

/-- The parties served when there is room for `cap`. -/
def served (cap : ℕ) (h : List (Event α)) : List α := (senders h).take cap

/-! ## Senders -/

theorem mem_senders {e : α} {h : List (Event α)} : e ∈ senders h ↔ .message e ∈ h := by
  rw [senders, List.mem_eraseDups, List.mem_filterMap]
  constructor
  · rintro ⟨x, hx, he⟩
    cases x with
    | message e' =>
      obtain rfl := Option.some.inj he
      exact hx
    | shutdown e' => cases he
  · exact fun h => ⟨_, h, rfl⟩

theorem senders_concat_shutdown (h : List (Event α)) (e : α) :
    senders (h ++ [.shutdown e]) = senders h := by
  rw [senders, List.filterMap_append, List.filterMap_cons_none rfl, List.filterMap_nil,
    List.append_nil, senders]

theorem senders_concat_message (h : List (Event α)) (e : α) :
    senders (h ++ [.message e]) = if e ∈ senders h then senders h else senders h ++ [e] := by
  have hlast : [Event.message e].filterMap Event.sender? = [e] := rfl
  rw [senders, List.filterMap_append, hlast, senders]
  generalize h.filterMap Event.sender? = l
  simp only [List.eraseDups_append, List.mem_eraseDups, List.removeAll, List.filter_cons,
    List.filter_nil]
  by_cases he : e ∈ l
  · simp [he]
  · simp [he, List.eraseDups_cons]

theorem eraseDups_eq_self {l : List α} (h : l.Nodup) : l.eraseDups = l := by
  induction l with
  | nil => rfl
  | cons a l ih =>
    obtain ⟨ha, hl⟩ := List.nodup_cons.1 h
    have hfilter : l.filter (fun b => !b == a) = l := by
      rw [List.filter_eq_self]
      intro b hb
      simpa using fun heq : b = a => ha (heq ▸ hb)
    rw [List.eraseDups_cons, hfilter, ih hl]

/-- More events only extend the list of senders. -/
theorem prefix_senders (h h' : List (Event α)) : senders h <+: senders (h ++ h') := by
  rw [senders, senders, List.filterMap_append, List.eraseDups_append]
  exact List.prefix_append _ _

theorem nodup_senders (h : List (Event α)) : (senders h).Nodup := by
  induction h using List.reverseRecOn with
  | nil => exact List.nodup_nil
  | append_singleton h x ih =>
    cases x with
    | message e =>
      rw [senders_concat_message]
      split
      · exact ih
      · rename_i he
        refine List.nodup_append.2 ⟨ih, List.nodup_singleton e, fun a ha b hb => ?_⟩
        rintro rfl
        exact he (List.mem_singleton.1 hb ▸ ha)
    | shutdown e => rwa [senders_concat_shutdown]

/-! ## Messages since the last shutdown -/

theorem since_concat_of_ne {e : α} (h : List (Event α)) {x : Event α} (hx : x.party ≠ e) :
    since e (h ++ [x]) = since e h := by
  simp [since, hx]

theorem since_concat_message (h : List (Event α)) (e : α) :
    since e (h ++ [.message e]) = since e h + 1 := by
  simp [since, Event.party]

theorem since_concat_shutdown (h : List (Event α)) (e : α) :
    since e (h ++ [.shutdown e]) = 0 := by
  simp [since, Event.party]

theorem since_le_length (e : α) (h : List (Event α)) : since e h ≤ h.length := by
  refine (List.takeWhile_sublist _).length_le.trans ?_
  exact (List.length_filter_le _ _).trans_eq (List.length_reverse ..)

/-- A party that has sent nothing has no message to count. -/
theorem since_eq_zero {e : α} {h : List (Event α)} (he : e ∉ senders h) : since e h = 0 := by
  rw [mem_senders] at he
  induction h using List.reverseRecOn with
  | nil => rfl
  | append_singleton h x ih =>
    rw [List.mem_append, List.mem_singleton, not_or] at he
    by_cases hx : x.party = e
    · cases x with
      | message e' => exact absurd (congrArg Event.message hx.symm) he.2
      | shutdown e' =>
        obtain rfl : e' = e := hx
        exact since_concat_shutdown h e'
    · rw [since_concat_of_ne h hx, ih he.1]

/-! ## The parties served -/

theorem served_concat_shutdown (cap : ℕ) (h : List (Event α)) (e : α) :
    served cap (h ++ [.shutdown e]) = served cap h := by
  rw [served, senders_concat_shutdown, served]

/-- A message takes a place among the parties served while there is one. -/
theorem served_concat_message (cap : ℕ) (h : List (Event α)) (e : α) :
    served cap (h ++ [.message e]) = OrderedSet.insert cap (served cap h) e := by
  rw [served, senders_concat_message, OrderedSet.insert, served]
  rcases Nat.lt_or_ge (senders h).length cap with hlt | hge
  · rw [List.take_of_length_le hlt.le]
    split
    · rename_i he
      rw [if_pos (Or.inl he), List.take_of_length_le hlt.le]
    · rename_i he
      rw [if_neg (by simp [he, hlt]), List.take_of_length_le]
      rw [List.length_append, List.length_singleton]
      exact hlt
  · rw [if_pos (Or.inr (by rw [List.length_take]; omega))]
    split
    · rfl
    · rw [List.take_append_of_le_length hge]

theorem nodup_served (cap : ℕ) (h : List (Event α)) : (served cap h).Nodup :=
  (nodup_senders h).sublist (List.take_sublist _ _)

/-- An event of another party serves or drops nobody else. -/
theorem mem_served_concat_of_ne {cap : ℕ} {h : List (Event α)} {x : Event α} {e : α}
    (hx : x.party ≠ e) : e ∈ served cap (h ++ [x]) ↔ e ∈ served cap h := by
  cases x with
  | message e' =>
    rw [served_concat_message]
    refine ⟨fun he => ?_, fun he => (OrderedSet.prefix_insert cap _ e').subset he⟩
    exact (OrderedSet.mem_of_mem_insert he).resolve_right fun heq => hx heq.symm
  | shutdown e' => rw [served_concat_shutdown]

/-- While there is room, all senders are served. -/
theorem served_eq_senders {cap : ℕ} {h : List (Event α)} (hroom : (served cap h).length < cap) :
    served cap h = senders h := by
  rw [served, List.length_take] at hroom
  exact List.take_of_length_le (by omega)

/-- A party is served when fewer than `cap` others sent a message before its first one. -/
theorem mem_served_concat_message {cap : ℕ} {h : List (Event α)} {e : α} :
    e ∈ served cap (h ++ [.message e]) ↔
      (senders (h.takeWhile (· ≠ .message e))).length < cap := by
  obtain ⟨rest, hrest⟩ : ∃ rest, h ++ [.message e] =
      h.takeWhile (· ≠ .message e) ++ [.message e] ++ rest := by
    have hsplit := List.takeWhile_append_dropWhile (p := (· ≠ .message e)) (l := h)
    rcases hdrop : h.dropWhile (· ≠ .message e) with _ | ⟨x, tail⟩
    · rw [hdrop, List.append_nil] at hsplit
      exact ⟨[], by rw [hsplit, List.append_nil]⟩
    · have hx := List.head?_dropWhile_not (· ≠ .message e) h
      rw [hdrop] at hsplit hx
      obtain rfl : x = .message e := by simpa using hx
      refine ⟨tail ++ [.message e], ?_⟩
      conv_lhs => rw [← hsplit]
      simp only [List.append_assoc, List.cons_append, List.nil_append]
  have hfirst : e ∉ senders (h.takeWhile (· ≠ .message e)) := by
    rw [mem_senders]
    intro hmem
    simpa using List.mem_takeWhile_imp hmem
  obtain ⟨later, hlater⟩ := prefix_senders (h.takeWhile (· ≠ .message e) ++ [.message e]) rest
  rw [senders_concat_message, if_neg hfirst] at hlater
  rw [served, hrest, ← hlater, List.append_assoc, List.take_append]
  constructor
  · intro hmem
    by_contra hfull
    rw [Nat.sub_eq_zero_of_le (by omega), List.take_zero, List.append_nil] at hmem
    exact hfirst (List.mem_of_mem_take hmem)
  · intro hlt
    refine List.mem_append_right _ ?_
    obtain ⟨k, hk⟩ := Nat.exists_eq_add_of_lt hlt
    rw [hk, show (senders (h.takeWhile (· ≠ .message e))).length + k + 1 -
      (senders (h.takeWhile (· ≠ .message e))).length = k + 1 by omega]
    simp

/-- A party that has sent a message is served when fewer than `cap` others sent one before. -/
theorem mem_served_iff {cap : ℕ} {h : List (Event α)} {e : α} (he : .message e ∈ h) :
    e ∈ served cap h ↔ (senders (h.takeWhile (· ≠ .message e))).length < cap := by
  have hagain : served cap (h ++ [.message e]) = served cap h := by
    rw [served, senders_concat_message, if_pos (mem_senders.2 he), served]
  rw [← hagain, mem_served_concat_message]

end EltexPractice.Sessions
