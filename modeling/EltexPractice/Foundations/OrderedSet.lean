import Mathlib.Data.List.Induction
import Mathlib.Data.List.Nodup
import Mathlib.Order.Nat

/-!
# Bounded ordered sets

A set kept as a list in the order of insertion: `insert cap` appends a new element while there are
fewer than `cap`, `remove` deletes an element and keeps the order of the others. Both keep the list
free of duplicates and within the capacity, and a history of insertions only grows the list at its
end.

A history of commands on a set without a bound is `run`: an element is in the set exactly when the
last command that names it is an insertion (`mem_run`). `pairwise_before`: a list that only loses
elements or gets new ones at its end keeps the order of insertion.
-/

namespace EltexPractice.OrderedSet

variable {α : Type*} [DecidableEq α]

/-- Append `x` unless it is there already or the list holds `cap` elements. -/
def insert (cap : ℕ) (l : List α) (x : α) : List α :=
  if x ∈ l ∨ cap ≤ l.length then l else l ++ [x]

/-- Delete `x`. -/
def remove (l : List α) (x : α) : List α := l.filter (· ≠ x)

theorem insert_of_mem {cap : ℕ} {l : List α} {x : α} (h : x ∈ l) : insert cap l x = l :=
  if_pos (Or.inl h)

theorem insert_of_full {cap : ℕ} {l : List α} (x : α) (h : cap ≤ l.length) :
    insert cap l x = l :=
  if_pos (Or.inr h)

theorem insert_of_notMem {cap : ℕ} {l : List α} {x : α} (h : x ∉ l) (hl : l.length < cap) :
    insert cap l x = l ++ [x] :=
  if_neg (by simp [h, hl])

theorem prefix_insert (cap : ℕ) (l : List α) (x : α) : l <+: insert cap l x := by
  rw [insert]
  split
  · exact List.prefix_refl l
  · exact List.prefix_append l [x]

theorem nodup_insert {cap : ℕ} {l : List α} (h : l.Nodup) (x : α) : (insert cap l x).Nodup := by
  rw [insert]
  split
  · exact h
  · rename_i hx
    rw [not_or] at hx
    exact List.nodup_append.2 ⟨h, List.nodup_singleton x, fun a ha b hb => by
      rintro rfl
      obtain rfl := List.mem_singleton.1 hb
      exact hx.1 ha⟩

theorem mem_of_mem_insert {cap : ℕ} {l : List α} {x y : α} (h : y ∈ insert cap l x) :
    y ∈ l ∨ y = x := by
  rw [insert] at h
  split at h
  · exact Or.inl h
  · simpa using h

theorem mem_insert_of_lt {cap : ℕ} {l : List α} (h : l.length < cap) {x y : α} :
    y ∈ insert cap l x ↔ y ∈ l ∨ y = x := by
  refine ⟨mem_of_mem_insert, ?_⟩
  rintro (hy | rfl)
  · exact (prefix_insert cap l x).subset hy
  · by_cases hx : y ∈ l
    · rwa [insert_of_mem hx]
    · simp [insert_of_notMem hx h]

/-- What holds of the elements holds of all after an insertion when it holds of the new one, or
when that finds no room. -/
theorem forall_mem_insert {cap : ℕ} {l : List α} {P : α → Prop} (h : ∀ y ∈ l, P y) {x : α} :
    (∀ y ∈ insert cap l x, P y) ↔ P x ∨ cap ≤ l.length := by
  by_cases hx : x ∈ l
  · rw [insert_of_mem hx]
    exact iff_of_true h (Or.inl (h x hx))
  · rcases Nat.lt_or_ge l.length cap with hlt | hge
    · rw [insert_of_notMem hx hlt, List.forall_mem_append, List.forall_mem_singleton,
        and_iff_right h, or_iff_left (Nat.not_le.2 hlt)]
    · rw [insert_of_full x hge]
      exact iff_of_true h (Or.inr hge)

theorem mem_remove {l : List α} {x y : α} : y ∈ remove l x ↔ y ∈ l ∧ y ≠ x := by
  simp [remove]

theorem nodup_remove {l : List α} (h : l.Nodup) (x : α) : (remove l x).Nodup := h.filter _

theorem length_remove_le (l : List α) (x : α) : (remove l x).length ≤ l.length :=
  List.length_filter_le _ _

/-- On a list without duplicates, deleting the first occurrence deletes the element. -/
theorem erase_eq_remove [BEq α] [LawfulBEq α] {l : List α} (h : l.Nodup) (x : α) :
    l.erase x = remove l x := by
  rw [h.erase_eq_filter, remove]
  congr 1
  funext y
  simp [bne, beq_eq_decide]

/-- `l'` is `l` less the one entry `x` it has, in the same order. -/
def Removes (x : α) (l l' : List α) : Prop :=
  ∃ before after, l = before ++ x :: after ∧ x ∉ before ++ after ∧ l' = before ++ after

omit [DecidableEq α] in
theorem Removes.ne {x : α} {l l' : List α} (h : Removes x l l') : l' ≠ l := by
  obtain ⟨before, after, rfl, -, rfl⟩ := h
  intro heq
  simpa using congrArg List.length heq

omit [DecidableEq α] in
theorem Removes.notMem {x : α} {l l' : List α} (h : Removes x l l') : x ∉ l' := by
  obtain ⟨before, after, -, hx, rfl⟩ := h
  exact hx

omit [DecidableEq α] in
/-- Deleting `y` removes `x` exactly when they are the same. -/
theorem removes_erase_iff [BEq α] [LawfulBEq α] {l : List α} (hl : l.Nodup) {x y : α}
    (hx : x ∈ l) : Removes x l (l.erase y) ↔ y = x := by
  constructor
  · intro h
    by_contra hne
    exact h.notMem ((List.mem_erase_of_ne (Ne.symm hne)).2 hx)
  · rintro rfl
    obtain ⟨before, after, rfl, hbefore⟩ := List.eq_append_cons_of_mem hx
    refine ⟨before, after, rfl, ?_, ?_⟩
    · exact (List.nodup_middle.1 hl).notMem
    · rw [List.erase_append_right _ hbefore, List.erase_cons_head]

omit [DecidableEq α] in
/-- An update in place at the position of `x` changes the image of `x` only. -/
theorem modify_map {β : Type*} {l : List α} (hl : l.Nodup) {i : ℕ} {x : α} (hi : l[i]? = some x)
    {f : β → β} {g g' : α → β} (hx : g' x = f (g x)) (hne : ∀ y, y ≠ x → g' y = g y) :
    (l.map g).modify i f = l.map g' := by
  obtain ⟨hlt, rfl⟩ := List.getElem?_eq_some_iff.1 hi
  apply List.ext_getElem
  · simp
  · intro j h₁ h₂
    have hj : j < l.length := by simpa using h₂
    rw [List.getElem_modify, List.getElem_map, List.getElem_map]
    split
    · rename_i hij
      subst hij
      exact hx.symm
    · rename_i hij
      exact (hne _ fun heq => hij ((hl.getElem_inj_iff.1 heq).symm)).symm

/-! ## Histories -/

/-- A command of a history: put an element in, or take it out. -/
inductive Command (α : Type*)
  | add (x : α)
  | remove (x : α)

/-- The element a command names. -/
def Command.target : Command α → α
  | .add x => x
  | .remove x => x

/-- One command on a set without a bound. -/
def apply (l : List α) : Command α → List α
  | .add x => insert (l.length + 1) l x
  | .remove x => remove l x

/-- The set after a history that starts with the empty set. -/
def run (cs : List (Command α)) : List α := cs.foldl apply []

theorem run_concat (cs : List (Command α)) (c : Command α) :
    run (cs ++ [c]) = apply (run cs) c := by
  simp [run]

theorem nodup_run (cs : List (Command α)) : (run cs).Nodup := by
  induction cs using List.reverseRecOn with
  | nil => exact List.nodup_nil
  | append_singleton cs c ih =>
    rw [run_concat]
    cases c with
    | add x => exact nodup_insert ih x
    | remove x => exact nodup_remove ih x

theorem mem_apply {l : List α} {c : Command α} {x : α} (h : c.target ≠ x) :
    x ∈ apply l c ↔ x ∈ l := by
  cases c with
  | add y =>
    have hxy : x ≠ y := Ne.symm h
    simp [apply, mem_insert_of_lt (Nat.lt_succ_self _), hxy]
  | remove y =>
    have hxy : x ≠ y := Ne.symm h
    simp [apply, mem_remove, hxy]

/-- **An element is in the set exactly when the last command that names it put it in.** -/
theorem mem_run {cs : List (Command α)} {x : α} :
    x ∈ run cs ↔ (cs.filter fun c => c.target = x).getLast? = some (.add x) := by
  induction cs using List.reverseRecOn with
  | nil => simp [run]
  | append_singleton cs c ih =>
    rw [run_concat, List.filter_append]
    by_cases hc : c.target = x
    · subst hc
      cases c with
      | add y => simp [apply, Command.target, mem_insert_of_lt (Nat.lt_succ_self _)]
      | remove y => simp [apply, Command.target, mem_remove]
    · rw [mem_apply hc, ih]
      simp [hc]

/-! ## The order of insertion -/

section Order

omit [DecidableEq α]

/-- One step of a set: it loses elements, or a new element comes to its end. -/
def Evolves (l l' : List α) : Prop := l'.Sublist l ∨ ∃ x, x ∉ l ∧ l' = l ++ [x]

/-- In the sets `after 0, …, after n`, the element `x` came in with step `i` and has stayed. -/
structure InsertedAt (after : ℕ → List α) (n : ℕ) (x : α) (i : ℕ) : Prop where
  lt : i < n
  absent : x ∉ after i
  present : ∀ k, i < k → k ≤ n → x ∈ after k

variable {after : ℕ → List α} {n : ℕ} {x : α}

theorem InsertedAt.succ {i : ℕ} (h : InsertedAt after n x i) (hx : x ∈ after (n + 1)) :
    InsertedAt after (n + 1) x i := by
  refine ⟨h.lt.trans (Nat.lt_succ_self n), h.absent, fun k hik hk => ?_⟩
  rcases Nat.le_succ_iff.1 hk with hk | rfl
  · exact h.present k hik hk
  · exact hx

/-- `x` came in before `y`. -/
def Before (after : ℕ → List α) (n : ℕ) (x y : α) : Prop :=
  ∃ i j, InsertedAt after n x i ∧ InsertedAt after n y j ∧ i < j

/-- **The list keeps the order of insertion.** -/
theorem pairwise_before (hinit : after 0 = [])
    (hstep : ∀ k < n, Evolves (after k) (after (k + 1))) :
    (∀ x ∈ after n, ∃ i, InsertedAt after n x i) ∧ (after n).Pairwise (Before after n) := by
  induction n with
  | zero => simp [hinit]
  | succ n ih =>
    obtain ⟨hmem, hpair⟩ := ih fun k hk => hstep k (hk.trans (Nat.lt_succ_self n))
    rcases hstep n (Nat.lt_succ_self n) with hsub | ⟨x, hx, hnew⟩
    · constructor
      · intro y hy
        obtain ⟨i, hi⟩ := hmem y (hsub.subset hy)
        exact ⟨i, hi.succ hy⟩
      · refine (hpair.sublist hsub).imp_of_mem fun hy hz => ?_
        rintro ⟨i, j, hi, hj, hij⟩
        exact ⟨i, j, hi.succ hy, hj.succ hz, hij⟩
    · have hold : ∀ y ∈ after n, y ∈ after (n + 1) := fun y hy => by simp [hnew, hy]
      have hlast : InsertedAt after (n + 1) x n := by
        refine ⟨Nat.lt_succ_self n, hx, fun k hnk hk => ?_⟩
        obtain rfl : k = n + 1 := by omega
        simp [hnew]
      constructor
      · intro y hy
        rw [hnew, List.mem_append, List.mem_singleton] at hy
        rcases hy with hy | rfl
        · obtain ⟨i, hi⟩ := hmem y hy
          exact ⟨i, hi.succ (hold y hy)⟩
        · exact ⟨n, hlast⟩
      · have hpair' : (after n).Pairwise (Before after (n + 1)) := by
          refine hpair.imp_of_mem fun hy hz => ?_
          rintro ⟨i, j, hi, hj, hij⟩
          exact ⟨i, j, hi.succ (hold _ hy), hj.succ (hold _ hz), hij⟩
        rw [hnew, List.pairwise_append]
        refine ⟨hpair', List.pairwise_singleton _ _, fun y hy z hz => ?_⟩
        obtain rfl := List.mem_singleton.1 hz
        obtain ⟨i, hi⟩ := hmem y hy
        exact ⟨i, n, hi.succ (hold y hy), hlast, hi.lt⟩

end Order

theorem evolves_apply (l : List α) (c : Command α) : Evolves l (apply l c) := by
  cases c with
  | add x =>
    by_cases hx : x ∈ l
    · exact Or.inl (by rw [apply, insert_of_mem hx])
    · exact Or.inr ⟨x, hx, by rw [apply, insert_of_notMem hx (Nat.lt_succ_self _)]⟩
  | remove x => exact Or.inl List.filter_sublist

end EltexPractice.OrderedSet
