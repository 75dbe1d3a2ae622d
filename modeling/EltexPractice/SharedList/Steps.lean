import EltexPractice.SharedList.System
import Mathlib.Logic.Function.Basic

/-!
# The steps of a consumer

The consumers of task 4 once more, now one step at a time: each access to the segment, each `semop`
and each output is a step of its own, and the steps of all consumers may alternate. A `Point` is
where a consumer is in `run_consumer_loop`, with its local variables.

`semop` is modelled together with what becomes of it when `cleanup_producer_ipc` removes the
semaphore: a `semop` that waits is woken, every later one returns at once, and the loop does not
look at the result. The segment stays attached to the consumers.

A consumer that is not disturbed in its section does what `runConsumerLoop` does in one step
(`Solo.pass`).
-/

namespace EltexPractice.SharedList

open MemM

/-! ## Points -/

/-- Where a consumer is in `run_consumer_loop`. -/
inductive Point
  /-- At the top of the loop, before it takes the semaphore. -/
  | lock
  /-- Before it reads `first_block_offset`. -/
  | first
  /-- At the condition of the search, and before it reads `num_elements`. -/
  | search (current : ℕ)
  /-- Before it reads `next_block_offset`. -/
  | advance (current : ℕ)
  /-- Before it reads `num_elements` of the block it found. -/
  | count (block : ℕ)
  /-- Before it reads `data[0]` for `min`. -/
  | readMin (block n : ℕ)
  /-- Before it reads `data[0]` for `max`. -/
  | readMax (block n : ℕ) (min : ℤ)
  /-- In the loop over `data`, at index `i` with `k` elements to go. -/
  | scan (block n k i : ℕ) (min max : ℤ) (elements : List ℤ)
  /-- Before it ends its report. -/
  | print (block : ℕ) (r : Report)
  /-- Before it marks the block as processed. -/
  | mark (block : ℕ) (r : Report)
  /-- Before it reads `producer_done`. -/
  | done
  /-- Before it gives the semaphore back. -/
  | unlock (pass : Pass)
  /-- Before it prints that it waits. -/
  | waiting
  | sleeping
  | left

/-- Where a pass goes on behind the section. -/
def Pass.after : Pass → Point
  | .processed _ => .sleeping
  | .waits => .waiting
  | .leaves => .left

/-- What a pass reports. -/
def Pass.report : Pass → List Report
  | .processed r => [r]
  | .waits => []
  | .leaves => []

namespace Point

/-- One step of a consumer between two calls of `semop`. -/
def access (consumer : ℕ) : Point → MemM Point
  | .first => do
    let first ← load 8 Version.task04.firstBlockOffset
    pure (.search first)
  | .search current => do
    if current = 0 then pure .done
    else
      let numElements ← load 8 current
      if 0 < numElements then pure (.count current)
      else pure (.advance current)
  | .advance current => do
    let next ← load 8 (current + 8)
    pure (.search next)
  | .count block => do
    let n ← load 8 block
    pure (.readMin block n)
  | .readMin block n => do
    let data ← load 4 (block + sizeofBlock)
    pure (.readMax block n (toInt data))
  | .readMax block n min => do
    let data ← load 4 (block + sizeofBlock)
    pure (.scan block n n 0 min (toInt data) [])
  | .scan block n 0 _ min max elements =>
    pure (.print block ⟨consumer, block, n, elements, min, max⟩)
  | .scan block n (k + 1) i min max elements => do
    let data ← load 4 (block + sizeofBlock + 4 * i)
    let val := toInt data
    pure (.scan block n k (i + 1) (if val < min then val else min)
      (if val > max then val else max) (elements ++ [val]))
  | .print block r => pure (.mark block r)
  | .mark block r => do
    store 8 block 0
    pure (.unlock (.processed r))
  | .done => do
    let producerDone ← load 4 Version.task04.producerDone
    if producerDone ≠ 0 then pure (.unlock .leaves)
    else pure (.unlock .waits)
  | .waiting => pure .sleeping
  | .sleeping => pure .lock
  | .lock => pure .lock
  | .unlock pass => pure (.unlock pass)
  | .left => pure .left

/-- What the step of a consumer prints about a block. -/
def report : Point → List Report
  | .print _ r => [r]
  | _ => []

/-- Whether the next step is one between two calls of `semop`. -/
def inside : Point → Bool
  | .lock => false
  | .unlock _ => false
  | .left => false
  | _ => true

theorem cases_of_not_inside {p : Point} (hp : ¬ p.inside = true) :
    p = .lock ∨ (∃ pass, p = .unlock pass) ∨ p = .left := by
  cases p <;> simp [inside] at hp ⊢

end Point

/-! ## The consumers together -/

structure Interleaved where
  mem : Mem
  /-- The value of the semaphore, while it exists. -/
  semaphore : Option ℕ
  reports : List Report
  points : ℕ → Point

inductive Event
  /-- `cleanup_producer_ipc`. -/
  | cleanup
  /-- A consumer takes a step. -/
  | consumer (c : ℕ)
  deriving DecidableEq

namespace Interleaved

/-- Consumer `c` has come to a point, with the segment as it is there. -/
def move (s : Interleaved) (c : ℕ) (p : Point) (mem : Mem) : Interleaved :=
  { s with mem, points := Function.update s.points c p }

@[simp] theorem mem_move (s : Interleaved) (c : ℕ) (p : Point) (mem : Mem) :
    (s.move c p mem).mem = mem := rfl

@[simp] theorem points_move_self (s : Interleaved) (c : ℕ) (p : Point) (mem : Mem) :
    (s.move c p mem).points c = p := Function.update_self ..

@[simp] theorem move_move (s : Interleaved) (c : ℕ) (p q : Point) (mem mem' : Mem) :
    (s.move c p mem).move c q mem' = s.move c q mem' := by
  unfold move
  rw [Function.update_idem]

/-- The reports `rs` have been printed. -/
def print (s : Interleaved) (rs : List Report) : Interleaved :=
  { s with reports := s.reports ++ rs }

@[simp] theorem print_nil (s : Interleaved) : s.print [] = s := by
  rw [print, List.append_nil]

/-- One step. -/
def step (s : Interleaved) : Event → Option Interleaved
  | .cleanup => if s.semaphore = none then none else some { s with semaphore := none }
  | .consumer c =>
    match s.points c with
    | .lock =>
      match s.semaphore with
      | none => some (s.move c .first s.mem)
      | some 0 => none
      | some (n + 1) => some ({ s with semaphore := some n }.move c .first s.mem)
    | .unlock pass =>
      some ({ s with semaphore := s.semaphore.map (· + 1) }.move c pass.after s.mem)
    | .left => none
    | p =>
      let out := (p.access c).run s.mem
      some ((s.move c out.1 out.2).print p.report)

theorem step_inside {s : Interleaved} {c : ℕ} {p : Point} (hc : s.points c = p)
    (hp : p.inside = true) :
    step s (.consumer c) =
      some ((s.move c ((p.access c).run s.mem).1 ((p.access c).run s.mem).2).print p.report) := by
  rw [step, hc]
  cases p <;> first | rfl | cases hp

theorem step_lock {s : Interleaved} {c n : ℕ} (hc : s.points c = .lock)
    (hsem : s.semaphore = some (n + 1)) :
    step s (.consumer c) = some ({ s with semaphore := some n }.move c .first s.mem) := by
  rw [step, hc, hsem]

theorem step_unlock {s : Interleaved} {c : ℕ} {pass : Pass} (hc : s.points c = .unlock pass) :
    step s (.consumer c) =
      some ({ s with semaphore := s.semaphore.map (· + 1) }.move c pass.after s.mem) := by
  rw [step, hc]

/-! ## A section without disturbance -/

/-- Consumer `c` gets from one state to another by steps of its own. -/
def Solo (c : ℕ) (s t : Interleaved) : Prop :=
  ∃ k, runFrom step s (List.replicate k (.consumer c)) = some t

namespace Solo

variable {c : ℕ} {s t u : Interleaved}

theorem of_step (h : step s (.consumer c) = some t) : Solo c s t :=
  ⟨1, (runFrom_singleton ..).trans h⟩

theorem trans (h₁ : Solo c s t) (h₂ : Solo c t u) : Solo c s u := by
  obtain ⟨k₁, h₁⟩ := h₁
  obtain ⟨k₂, h₂⟩ := h₂
  refine ⟨k₁ + k₂, ?_⟩
  rw [List.replicate_add, runFrom_append, h₁]
  exact h₂

/-- A step between two calls of `semop` that prints nothing. -/
theorem access (s : Interleaved) {p : Point} (hp : p.inside = true) (hreport : p.report = [])
    (mem : Mem) :
    (p.access c).wp (fun q mem' => Solo c (s.move c p mem) (s.move c q mem')) mem := by
  apply of_step
  rw [step_inside (points_move_self ..) hp, hreport, print_nil, mem_move, move_move]

/-- Where the search ends. -/
def found : Option ℕ → Point
  | none => .done
  | some block => .count block

theorem search (s : Interleaved) (c fuel current : ℕ) (mem : Mem) :
    (SharedList.search fuel current).wp (fun r mem' => ∀ o ∈ r,
      Solo c (s.move c (.search current) mem) (s.move c (found o) mem')) mem := by
  induction fuel generalizing current mem with
  | zero => nofun
  | succ fuel ih =>
    have htest := access (c := c) s (p := .search current) rfl rfl mem
    rw [Point.access] at htest
    rw [SharedList.search]
    by_cases hend : current = 0
    · rw [if_pos hend, wp_pure] at htest ⊢
      intro o ho
      obtain rfl := Option.some.inj ho
      exact htest
    · rw [if_neg hend, wp_bind, wp_load] at htest ⊢
      by_cases hnum : 0 < leValue (bytesAt mem.bytes current 8)
      · rw [if_pos hnum, wp_pure] at htest ⊢
        intro o ho
        obtain rfl := Option.some.inj ho
        exact htest
      · rw [if_neg hnum, wp_pure] at htest
        rw [if_neg hnum, wp_bind, wp_load]
        refine wp_mono (ih _ _) fun r mem' hr o ho => ?_
        exact (htest.trans (access s rfl rfl _)).trans (hr o ho)

theorem scan (s : Interleaved) (c block n k i : ℕ) (min max : ℤ) (elements : List ℤ) (mem : Mem) :
    (scanLoop block k i min max).wp (fun r mem' =>
      Solo c (s.move c (.scan block n k i min max elements) mem)
        (s.move c (.print block ⟨c, block, n, elements ++ r.elements, r.min, r.max⟩) mem')) mem
    := by
  induction k generalizing i min max elements mem with
  | zero =>
    have hend := access (c := c) s (p := .scan block n 0 i min max elements) rfl rfl mem
    rw [Point.access, wp_pure] at hend
    rw [scanLoop, wp_pure, List.append_nil]
    exact hend
  | succ k ih =>
    have hread := access (c := c) s (p := .scan block n (k + 1) i min max elements) rfl rfl mem
    rw [Point.access, wp_bind, wp_load] at hread
    rw [scanLoop]
    simp only [wp_bind, wp_load, wp_pure] at hread ⊢
    generalize toInt (leValue (bytesAt mem.bytes (block + sizeofBlock + 4 * i) 4)) = val at *
    refine wp_mono (ih (i + 1) _ _ (elements ++ [val]) _) fun r mem' hr => ?_
    rw [List.append_assoc, List.singleton_append] at hr
    exact hread.trans hr

theorem process (s : Interleaved) (c block : ℕ) (mem : Mem) :
    (processBlock c block).wp (fun r mem' => Solo c (s.move c (.count block) mem)
      ((s.move c (.unlock (.processed r)) mem').print [r])) mem := by
  unfold processBlock
  simp only [wp_bind, wp_load]
  have hcount := access (c := c) s (p := .count block) rfl rfl mem
  rw [Point.access, wp_bind, wp_load, wp_pure] at hcount
  generalize leValue (bytesAt mem.bytes block 8) = n at *
  have hread := (hcount.trans (access s rfl rfl _)).trans (access s rfl rfl _)
  refine wp_mono (scan s c block n n 0 _ _ [] _) fun r mem' hscan => ?_
  rw [List.nil_append] at hscan
  rw [wp_store, wp_pure]
  generalize Report.mk c block n r.elements r.min r.max = report at *
  have hprint : Solo c (s.move c (.print block report) mem')
      ((s.print [report]).move c (.mark block report) mem') := by
    apply of_step
    rw [step_inside (points_move_self ..) rfl, mem_move, move_move]
    rfl
  have hmark := access (c := c) (s.print [report]) (p := .mark block report) rfl rfl mem'
  rw [Point.access, wp_bind, wp_store, wp_pure] at hmark
  exact ((hread.trans hscan).trans hprint).trans hmark

/-- What a consumer does between the two calls of `semop`. -/
theorem section_steps (s : Interleaved) (c fuel : ℕ) (mem : Mem) :
    (runConsumerLoop .task04 fuel c).wp (fun r mem' => ∀ pass ∈ r, Solo c (s.move c .first mem)
      ((s.move c (.unlock pass) mem').print pass.report)) mem := by
  unfold runConsumerLoop findUnprocessed
  have hfirst := access (c := c) s (p := .first) rfl rfl mem
  simp only [Point.access, wp_bind, wp_load, wp_pure] at hfirst ⊢
  refine wp_mono (search s c fuel _ _) fun r mem' hr => ?_
  split
  · nofun
  · rename_i block
    rw [wp_bind]
    refine wp_mono (process s c block mem') fun r mem'' hprocess => ?_
    rw [wp_pure]
    intro pass hpass
    obtain rfl := Option.some.inj hpass
    exact (hfirst.trans (hr _ rfl)).trans hprocess
  · have hdone := access (c := c) s (p := .done) rfl rfl mem'
    rw [Point.access, wp_bind, wp_load] at hdone
    rw [wp_bind, wp_load]
    split
    · rename_i hset
      rw [if_pos hset, wp_pure] at hdone
      rw [wp_pure]
      intro pass hpass
      obtain rfl := Option.some.inj hpass
      rw [Pass.report, print_nil]
      exact (hfirst.trans (hr _ rfl)).trans hdone
    · rename_i hset
      rw [if_neg hset, wp_pure] at hdone
      rw [wp_pure]
      intro pass hpass
      obtain rfl := Option.some.inj hpass
      rw [Pass.report, print_nil]
      exact (hfirst.trans (hr _ rfl)).trans hdone

end Solo

/-! ## Between the sections -/

/-- The state in which nobody has the semaphore. -/
def between (st : State) (points : ℕ → Point) : Interleaved where
  mem := st.mem
  semaphore := some 1
  reports := st.reports
  points := points

/-- **A section is one step**: a consumer that is not disturbed does what the section does. -/
theorem solo_of_step {rand : ℕ → ℕ} {fuel c : ℕ} {st st' : State} {points : ℕ → Point}
    (hc : points c = .lock) (hs : SharedList.step .task04 rand fuel st (.consume c) = some st') :
    ∃ pass : Pass, Solo c (between st points) (between st' (Function.update points c pass.after)) ∧
      (pass.after = .left ↔ c ∈ st'.left) := by
  obtain ⟨hleft, hs⟩ := Option.ite_none_left_eq_some.1 hs
  have hsection := Solo.section_steps { between st points with semaphore := some 0 } c fuel st.mem
  rw [wp] at hsection
  generalize (runConsumerLoop .task04 fuel c).run st.mem = out at *
  obtain ⟨r, mem⟩ := out
  cases r with
  | none => cases hs
  | some pass =>
    refine ⟨pass, ?_⟩
    have hlock : Solo c (between st points) _ := Solo.of_step (step_lock hc rfl)
    have hunlock := Solo.of_step (step_unlock (points_move_self
      ({ between st points with semaphore := some 0 }.print pass.report) c (.unlock pass) mem))
    have hsolo : Solo c (between st points)
        ((between { st with mem } (Function.update points c pass.after)).print pass.report) := by
      have hend := (hlock.trans (hsection pass rfl)).trans hunlock
      unfold move print at hend
      dsimp only [between, Option.map_some] at hend
      rw [Function.update_idem] at hend
      exact hend
    cases pass with
    | processed r =>
      obtain rfl := Option.some.inj hs
      exact ⟨hsolo, iff_of_false nofun hleft⟩
    | waits =>
      obtain rfl := Option.some.inj hs
      rw [Pass.report, print_nil] at hsolo
      exact ⟨hsolo, iff_of_false nofun hleft⟩
    | leaves =>
      obtain rfl := Option.some.inj hs
      rw [Pass.report, print_nil] at hsolo
      exact ⟨hsolo, iff_of_true rfl List.mem_cons_self⟩

end Interleaved

end EltexPractice.SharedList
