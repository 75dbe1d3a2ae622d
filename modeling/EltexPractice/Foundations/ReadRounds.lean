import Mathlib.Data.List.Basic
import Mathlib.Order.Nat

/-!
# Reading a text round after round

A file whose reads hand out a text in pieces, return nothing at its end, and start over. The reads
have sizes, and `reply n` is what the `n`-th returns, or `none` for an error. A round is a stretch
of reads up to one that returns nothing.

* `ReadsBack`: every round ends and its pieces together are the text.
* `position`: how much of the text the sizes have used up in the round.
* `readsBack_iff`: where every piece has the length the sizes leave it, the text is read back
  exactly when every read inside the text returns the bytes at its position.
-/

namespace EltexPractice.Rounds

variable {α : Type}

/-- The reads of a round return something, but for the last. -/
structure IsRound (reply : ℕ → Option (List α)) (i j : ℕ) : Prop where
  le : i ≤ j
  running : ∀ k, i ≤ k → k < j → reply k ≠ some []
  ended : reply j = some []

/-- A round starts at the first read, and behind the last read of the round before. -/
def Starts (reply : ℕ → Option (List α)) : ℕ → Prop
  | 0 => True
  | i + 1 => reply i = some []

/-- What the successful ones of `n` reads return, from the read `i` on. -/
def collected (reply : ℕ → Option (List α)) (i : ℕ) : ℕ → List α
  | 0 => []
  | n + 1 => (reply i).getD [] ++ collected reply (i + 1) n

/-- Every round ends, and returns the text. -/
def ReadsBack (reply : ℕ → Option (List α)) (text : List α) : Prop :=
  ∀ i, Starts reply i → ∃ n, IsRound reply i (i + n) ∧ collected reply i n = text

/-- The position of the `n`-th read in a text of the given length. -/
def position (length : ℕ) (size : ℕ → ℕ) : ℕ → ℕ
  | 0 => 0
  | n + 1 =>
    if position length size n = length then 0
    else min length (position length size n + size n)

/-- The replies have the lengths of the pieces. -/
structure Pieces (reply : ℕ → Option (List α)) (length : ℕ) (size : ℕ → ℕ) : Prop where
  size_pos : ∀ n, 0 < size n
  at_end : ∀ n, position length size n = length → reply n = some []
  piece : ∀ n, position length size n < length → ∀ bytes, reply n = some bytes →
    bytes.length = min (size n) (length - position length size n)

/-! ## Positions -/

section

variable {length : ℕ} {size : ℕ → ℕ} {n : ℕ}

theorem position_le (length : ℕ) (size : ℕ → ℕ) (n : ℕ) : position length size n ≤ length := by
  cases n with
  | zero => exact Nat.zero_le _
  | succ n =>
    rw [position]
    split
    · exact Nat.zero_le _
    · exact Nat.min_le_left _ _

theorem position_succ_of_eq (h : position length size n = length) :
    position length size (n + 1) = 0 := if_pos h

theorem position_succ_of_lt (h : position length size n < length) :
    position length size (n + 1) = min length (position length size n + size n) :=
  if_neg h.ne

/-- The end of the text is reached. -/
theorem exists_end (length : ℕ) (hpos : ∀ n, 0 < size n) (i : ℕ) :
    ∃ n, position length size (i + n) = length ∧
      ∀ k < n, position length size (i + k) < length := by
  have hle := position_le length size i
  obtain ⟨rest, hrest⟩ := Nat.exists_eq_add_of_le hle
  induction rest using Nat.strong_induction_on generalizing i with
  | _ rest ih =>
    rcases Nat.eq_zero_or_pos rest with rfl | hrest'
    · exact ⟨0, hrest.symm, fun k hk => absurd hk (Nat.not_lt_zero k)⟩
    have hlt : position length size i < length := by omega
    have hnext := position_succ_of_lt hlt
    have hi := hpos i
    have hle' := position_le length size (i + 1)
    obtain ⟨n, hn, hbefore⟩ := ih (length - position length size (i + 1)) (by omega) (i + 1) hle'
      (by omega)
    refine ⟨n + 1, by rw [← hn]; congr 1; omega, fun k hk => ?_⟩
    rcases k with _ | k
    · exact hlt
    · rw [show i + (k + 1) = i + 1 + k by omega]
      exact hbefore k (by omega)

/-- Every read belongs to a round that started at the beginning of the text. -/
theorem exists_start (length : ℕ) (size : ℕ → ℕ) (n : ℕ) :
    ∃ i k, n = i + k ∧ (i = 0 ∨ ∃ j, i = j + 1 ∧ position length size j = length) ∧
      ∀ l < k, position length size (i + l) < length := by
  induction n with
  | zero => exact ⟨0, 0, rfl, Or.inl rfl, fun l hl => absurd hl (Nat.not_lt_zero l)⟩
  | succ n ih =>
    rcases (position_le length size n).lt_or_eq with hlt | heq
    · obtain ⟨i, k, rfl, hstart, hbefore⟩ := ih
      refine ⟨i, k + 1, by omega, hstart, fun l hl => ?_⟩
      rcases Nat.lt_succ_iff_lt_or_eq.1 hl with h | rfl
      · exact hbefore l h
      · exact hlt
    · exact ⟨n + 1, 0, rfl, Or.inr ⟨n, rfl, heq⟩, fun l hl => absurd hl (Nat.not_lt_zero l)⟩

end

/-! ## What a round returns -/

theorem collected_add (reply : ℕ → Option (List α)) (i n k : ℕ) :
    collected reply i (n + k) = collected reply i n ++ collected reply (i + n) k := by
  induction n generalizing i with
  | zero => rw [Nat.zero_add]; rfl
  | succ n ih =>
    rw [show n + 1 + k = n + k + 1 by omega, collected, collected, ih, List.append_assoc,
      show i + 1 + n = i + (n + 1) by omega]

/-- Reads that return the bytes at their positions put the text together. -/
theorem collected_eq {reply : ℕ → Option (List α)} {text : List α} {size : ℕ → ℕ} {n : ℕ}
    (hslice : ∀ n, position text.length size n < text.length →
      reply n = some ((text.drop (position text.length size n)).take (size n)))
    {i : ℕ} (hin : ∀ k < n, position text.length size (i + k) < text.length)
    (hend : position text.length size (i + n) = text.length) :
    collected reply i n = text.drop (position text.length size i) := by
  induction n generalizing i with
  | zero => rw [collected, ← Nat.add_zero i, hend, List.drop_length]
  | succ n ih =>
    have hlt := hin 0 (Nat.succ_pos n)
    rw [Nat.add_zero] at hlt
    have hrest := ih (i := i + 1)
      (fun k hk => by
        rw [show i + 1 + k = i + (k + 1) by omega]
        exact hin (k + 1) (by omega))
      (by rw [show i + 1 + n = i + (n + 1) by omega]; exact hend)
    have hpiece : (text.drop (position text.length size i)).take (size i) ++
        text.drop (position text.length size (i + 1)) =
          text.drop (position text.length size i) := by
      rw [position_succ_of_lt hlt]
      rcases Nat.le_total text.length (position text.length size i + size i) with hle | hle
      · rw [Nat.min_eq_left hle, List.drop_length, List.append_nil]
        exact List.take_of_length_le (by rw [List.length_drop]; omega)
      · rw [Nat.min_eq_right hle, ← List.drop_drop, List.take_append_drop]
    rw [collected, hslice i hlt, Option.getD_some, hrest, hpiece]

namespace Pieces

variable {reply : ℕ → Option (List α)} {text : List α} {length : ℕ} {size : ℕ → ℕ} {n : ℕ}

theorem reply_eq_nil_iff (h : Pieces reply length size) :
    reply n = some [] ↔ position length size n = length := by
  refine ⟨fun hnil => ?_, h.at_end n⟩
  by_contra hne
  have hlt := lt_of_le_of_ne (position_le length size n) hne
  have hlen := h.piece n hlt [] hnil
  have hpos := h.size_pos n
  rw [List.length_nil] at hlen
  omega

theorem starts_iff (h : Pieces reply length size) {i : ℕ} :
    Starts reply i ↔ i = 0 ∨ ∃ j, i = j + 1 ∧ position length size j = length := by
  cases i with
  | zero => exact iff_of_true trivial (Or.inl rfl)
  | succ i =>
    rw [Starts, h.reply_eq_nil_iff]
    constructor
    · exact fun hi => Or.inr ⟨i, rfl, hi⟩
    · rintro (h0 | ⟨j, hj, hend⟩)
      · cases h0
      · obtain rfl := Nat.succ.inj hj
        exact hend

theorem position_of_starts (h : Pieces reply length size) {i : ℕ} (hi : Starts reply i) :
    position length size i = 0 := by
  rcases h.starts_iff.1 hi with rfl | ⟨j, rfl, hj⟩
  · rfl
  · exact position_succ_of_eq hj

/-- The read that ends a round is the one at the end of the text. -/
theorem isRound_iff (h : Pieces reply length size) {i : ℕ} :
    IsRound reply i (i + n) ↔ position length size (i + n) = length ∧
      ∀ k < n, position length size (i + k) < length := by
  constructor
  · rintro ⟨-, hrunning, hended⟩
    refine ⟨h.reply_eq_nil_iff.1 hended, fun k hk =>
      lt_of_le_of_ne (position_le length size _) fun heq => ?_⟩
    exact hrunning (i + k) (Nat.le_add_right i k) (by omega) (h.at_end _ heq)
  · rintro ⟨hend, hbefore⟩
    refine ⟨Nat.le_add_right i n, fun k hik hk hnil => ?_, h.at_end _ hend⟩
    obtain ⟨l, rfl⟩ := Nat.exists_eq_add_of_le hik
    exact absurd (h.reply_eq_nil_iff.1 hnil) (hbefore l (by omega)).ne

/-- A read inside the text moves the position by at least what it returns. -/
theorem length_reply_le (h : Pieces reply length size) (hlt : position length size n < length) :
    ((reply n).getD []).length + position length size n ≤ position length size (n + 1) := by
  rw [position_succ_of_lt hlt]
  cases hreply : reply n with
  | none =>
    rw [Option.getD_none, List.length_nil]
    omega
  | some bytes =>
    have hlen := h.piece n hlt bytes hreply
    rw [Option.getD_some, hlen]
    omega

theorem length_collected_le (h : Pieces reply length size) {i : ℕ}
    (hin : ∀ k < n, position length size (i + k) < length) :
    (collected reply i n).length + position length size i ≤ position length size (i + n) := by
  induction n generalizing i with
  | zero => rw [collected, List.length_nil, Nat.zero_add, Nat.add_zero]
  | succ n ih =>
    have hfirst := h.length_reply_le (hin 0 (Nat.succ_pos n))
    have hrest := ih (i := i + 1) fun k hk => by
      rw [show i + 1 + k = i + (k + 1) by omega]
      exact hin (k + 1) (by omega)
    rw [show i + 1 + n = i + (n + 1) by omega] at hrest
    rw [collected, List.length_append]
    rw [Nat.add_zero] at hfirst
    omega

/-- A read inside a round that returns the text returns the bytes at its position. -/
theorem reply_of_collected (h : Pieces reply text.length size) {i k : ℕ}
    (hi : position text.length size i = 0) (hk : k < n)
    (hin : ∀ k < n, position text.length size (i + k) < text.length)
    (hend : position text.length size (i + n) = text.length)
    (htext : collected reply i n = text) :
    reply (i + k) = some ((text.drop (position text.length size (i + k))).take (size (i + k))) := by
  have hlt := hin k hk
  obtain ⟨r, rfl⟩ := Nat.exists_eq_add_of_lt hk
  have hbefore := h.length_collected_le (i := i) (n := k) fun l hl => hin l (by omega)
  have hafter := h.length_collected_le (i := i + k + 1) (n := r) fun l hl => by
    rw [show i + k + 1 + l = i + (k + 1 + l) by omega]
    exact hin _ (by omega)
  rw [show i + k + 1 + r = i + (k + r + 1) by omega, hend] at hafter
  have hpiece := h.length_reply_le hlt
  have hnext := position_succ_of_lt hlt
  -- the three parts of the text
  have hsplit : collected reply i k ++
      ((reply (i + k)).getD [] ++ collected reply (i + k + 1) r) = text := by
    rw [← htext, show k + r + 1 = k + (r + 1) by omega, collected_add]
    rfl
  have hlen := congrArg List.length hsplit
  rw [List.length_append, List.length_append] at hlen
  have hpos : (collected reply i k).length = position text.length size (i + k) := by omega
  have hdrop : text.drop (position text.length size (i + k)) =
      (reply (i + k)).getD [] ++ collected reply (i + k + 1) r := by
    rw [← hpos, ← hsplit, List.drop_left]
  have hsize := h.size_pos (i + k)
  cases hreply : reply (i + k) with
  | none =>
    rw [hreply, Option.getD_none, List.length_nil] at hlen hpiece
    omega
  | some bytes =>
    rw [hreply, Option.getD_some] at hdrop hlen
    have hbytes := h.piece _ hlt bytes hreply
    rcases Nat.le_total (size (i + k)) (text.length - position text.length size (i + k)) with
      hle | hle
    · rw [Nat.min_eq_left hle] at hbytes
      rw [hdrop, ← hbytes, List.take_left]
    · have hnil : (collected reply (i + k + 1) r).length = 0 := by omega
      rw [hdrop, List.length_eq_zero_iff.1 hnil, List.append_nil,
        List.take_of_length_le (by omega)]

/-- **The text is read back** exactly when every read inside it returns the bytes at its
position. -/
theorem readsBack_iff (h : Pieces reply text.length size) :
    ReadsBack reply text ↔ ∀ n, position text.length size n < text.length →
      reply n = some ((text.drop (position text.length size n)).take (size n)) := by
  constructor
  · intro hback m hm
    obtain ⟨i, k, rfl, hstart, hbefore⟩ := exists_start text.length size m
    obtain ⟨n, hround, htext⟩ := hback i (h.starts_iff.2 hstart)
    obtain ⟨hend, hin⟩ := h.isRound_iff.1 hround
    have hk : k < n := by
      by_contra hle
      rcases (Nat.le_of_not_lt hle).lt_or_eq with hlt | rfl
      · exact absurd hend (hbefore n hlt).ne
      · exact absurd hend hm.ne
    exact h.reply_of_collected (h.position_of_starts (h.starts_iff.2 hstart)) hk hin hend htext
  · intro hslice i hi
    obtain ⟨n, hend, hin⟩ := exists_end text.length h.size_pos i
    refine ⟨n, h.isRound_iff.2 ⟨hend, hin⟩, ?_⟩
    rw [collected_eq hslice hin hend, h.position_of_starts hi, List.drop_zero]

end Pieces

end EltexPractice.Rounds
