import EltexPractice.SharedList.Ledger
import Mathlib.Algebra.BigOperators.Group.Finset.Basic

/-!
# The alignment of the blocks

`run_generation_loop` places each block behind the last one, and a block of `n` elements takes
`16 + 4 * n` bytes. The header keeps the first block aligned for its `size_t` fields, every block
with an odd number of elements shifts all that follow by half of one.

* `offset_iterate`: where the `k`-th block is placed, from the element counts alone.
* `aligned_iff`: the blocks are aligned in every state of every run exactly when every block that
  has a successor in the segment has an even number of elements.
-/

namespace EltexPractice.SharedList

variable {v : Version} {rand : ℕ → ℕ} {fuel : ℕ}

/-! ## The blocks that `rand` determines -/

/-- The calls of `rand` before the `k`-th block. -/
def drawsBefore (rand : ℕ → ℕ) : ℕ → ℕ
  | 0 => 0
  | k + 1 => drawsBefore rand k + 1 + (5 + rand (drawsBefore rand k) % 11)

/-- The number of elements of the `k`-th block. -/
def elementCount (rand : ℕ → ℕ) (k : ℕ) : ℕ := 5 + rand (drawsBefore rand k) % 11

/-- The offset of the `k`-th block. -/
def blockOffset (v : Version) (rand : ℕ → ℕ) (k : ℕ) : ℕ :=
  v.headerSize + ∑ i ∈ Finset.range k, (16 + 4 * elementCount rand i)

theorem blockOffset_succ (v : Version) (rand : ℕ → ℕ) (k : ℕ) :
    blockOffset v rand (k + 1) = blockOffset v rand k + (16 + 4 * elementCount rand k) := by
  rw [blockOffset, Finset.sum_range_succ, ← Nat.add_assoc, ← blockOffset]

theorem monotone_blockOffset (v : Version) (rand : ℕ → ℕ) : Monotone (blockOffset v rand) := by
  apply monotone_nat_of_le_succ
  intro k
  rw [blockOffset_succ]
  exact Nat.le_add_right _ _

/-- The cursor is where the counts put it. -/
theorem iterate_next (v : Version) (rand : ℕ → ℕ) (k : ℕ) :
    (Cursor.next rand)^[k] ⟨0, v.headerSize⟩ = ⟨drawsBefore rand k, blockOffset v rand k⟩ := by
  induction k with
  | zero => rfl
  | succ k ih =>
    rw [Function.iterate_succ_apply', ih, blockOffset_succ]
    rfl

/-! ## The alignment -/

/-- Both `size_t` of the block are aligned, in a segment attached at `base`. -/
def Generated.Aligned (base : ℕ) (g : Generated) : Prop :=
  8 ∣ base + g.offset ∧ 8 ∣ base + (g.offset + 8)

theorem Generated.aligned_iff_offset {base : ℕ} (hbase : 4096 ∣ base) (g : Generated) :
    g.Aligned base ↔ 8 ∣ g.offset := by
  rw [Generated.Aligned]
  omega

theorem dvd_headerSize (v : Version) : 8 ∣ v.headerSize := by
  cases v <;> decide

/-- A block moves the next one by a multiple of eight exactly when its count is even. -/
theorem dvd_blockOffset_succ {k : ℕ} (h : 8 ∣ blockOffset v rand k) :
    8 ∣ blockOffset v rand (k + 1) ↔ 2 ∣ elementCount rand k := by
  rw [blockOffset_succ]
  omega

theorem dvd_blockOffset {k : ℕ} (h : ∀ i < k, 2 ∣ elementCount rand i) :
    8 ∣ blockOffset v rand k := by
  induction k with
  | zero =>
    rw [blockOffset, Finset.sum_range_zero]
    exact dvd_headerSize v
  | succ k ih =>
    exact (dvd_blockOffset_succ (ih fun i hi => h i (Nat.lt_succ_of_lt hi))).2
      (h k (Nat.lt_succ_self k))

/-- The blocks of a reachable state are the first ones of those that fit. -/
theorem Ledger.Inv.offset_of_mem {l : Ledger} (h : l.Inv v rand) {g : Generated}
    (hg : g ∈ l.generated) :
    ∃ k, g.offset = blockOffset v rand k ∧ blockOffset v rand (k + 1) ≤ shmSize := by
  obtain ⟨k, hk⟩ := List.getElem?_of_mem hg
  have hlt := (List.getElem?_eq_some_iff.1 hk).1
  rw [h.generated] at hk
  have hblock := Cursor.eq_block_of_getElem? hk
  have hfits := h.fits
  rw [iterate_next] at hfits hblock
  exact ⟨k, by rw [hblock]; rfl, (monotone_blockOffset v rand hlt).trans hfits⟩

/-- While they fit, the producer generates one block after the other. -/
theorem exists_generated (v : Version) (rand : ℕ → ℕ) (fuel : ℕ) (stale : Bytes) {k : ℕ}
    (hfits : blockOffset v rand k ≤ shmSize) :
    ∃ st, runFrom (step v rand fuel) (.init v stale) (List.replicate k .generate) = some st ∧
      st.producer = .generating ∧ st.generated = Cursor.blocks rand ⟨0, v.headerSize⟩ k := by
  induction k with
  | zero => exact ⟨_, rfl, rfl, rfl⟩
  | succ k ih =>
    obtain ⟨st, hrun, hgen, hblocks⟩ := ih
      ((monotone_blockOffset v rand (Nat.le_succ k)).trans hfits)
    have hinv := State.inv_of_run hrun
    have hledger := ledger_of_run hrun
    have hcursor : (st.ledger v).cursor = (Cursor.next rand)^[k] ⟨0, v.headerSize⟩ := by
      have hlength : st.generated.length = k := by
        rw [hblocks, Cursor.blocks, List.length_map, List.length_range]
      rw [← hlength]
      exact (Ledger.inv_of_run hledger).cursor hgen
    have hroom : ¬ shmSize < ((st.ledger v).cursor.next rand).offset := by
      rw [hcursor, ← Function.iterate_succ_apply' (Cursor.next rand), iterate_next]
      exact Nat.not_lt.2 hfits
    have hnext := hinv.ledger_generate
    rw [Ledger.generate, if_neg hroom] at hnext
    refine ⟨_, ?_, (congrArg Ledger.producer hnext).trans hgen, ?_⟩
    · rw [List.replicate_succ']
      exact runFrom_concat.2 ⟨st, hrun, State.step_generate hgen⟩
    · refine (congrArg Ledger.generated hnext).trans ?_
      change st.generated ++ [(st.ledger v).cursor.block rand] = _
      rw [hcursor, hblocks, Cursor.blocks_succ]

/-! ## Every run -/

/-- In every state of every run the blocks are aligned. -/
def AlignedLaw (v : Version) (rand : ℕ → ℕ) (base : ℕ) : Prop :=
  ∀ (fuel : ℕ) (stale : Bytes) (as : List Action) (st : State),
    runFrom (step v rand fuel) (.init v stale) as = some st → ∀ g ∈ st.generated, g.Aligned base

/-- **The blocks are aligned** exactly when every block behind which another one fits has an even
number of elements. -/
theorem aligned_iff (v : Version) (rand : ℕ → ℕ) {base : ℕ} (hbase : 4096 ∣ base) :
    AlignedLaw v rand base ↔
      ∀ k, blockOffset v rand (k + 2) ≤ shmSize → 2 ∣ elementCount rand k := by
  constructor
  · intro h k hfits
    obtain ⟨st, hrun, -, hblocks⟩ := exists_generated v rand 0 (fun _ => 0) hfits
    have hplaced (i : ℕ) (hi : i < k + 2) : 8 ∣ blockOffset v rand i := by
      have hmem : ((Cursor.next rand)^[i] ⟨0, v.headerSize⟩).block rand ∈ st.generated := by
        rw [hblocks]
        exact List.mem_map_of_mem (List.mem_range.2 hi)
      have haligned := (Generated.aligned_iff_offset hbase _).1 (h _ _ _ _ hrun _ hmem)
      rw [iterate_next] at haligned
      exact haligned
    exact (dvd_blockOffset_succ (hplaced k (by omega))).1 (hplaced (k + 1) (by omega))
  · intro h fuel stale as st hrun g hg
    obtain ⟨k, hoffset, hfits⟩ := (Ledger.inv_of_run (ledger_of_run hrun)).offset_of_mem hg
    rw [Generated.aligned_iff_offset hbase, hoffset]
    exact dvd_blockOffset fun i hi => h i ((monotone_blockOffset v rand (by omega)).trans hfits)

/-- With blocks of six elements. -/
theorem aligned_even : AlignedLaw .task05 (fun _ => 1) 8192 :=
  (aligned_iff .task05 (fun _ => 1) (by decide)).2 fun _ _ => ⟨3, rfl⟩

/-- With blocks of five elements the second one begins four bytes off. -/
theorem not_alignedLaw :
    ¬ AlignedLaw .task04 (fun _ => 0) 8192 ∧ ¬ AlignedLaw .task05 (fun _ => 0) 8192 := by
  have hodd (v : Version) (hfits : blockOffset v (fun _ => 0) 2 ≤ shmSize) :
      ¬ AlignedLaw v (fun _ => 0) 8192 := by
    intro h
    obtain ⟨st, hrun, -, hblocks⟩ := exists_generated v (fun _ => 0) 0 (fun _ => 0) hfits
    have hmem : (Cursor.next (fun _ => 0) ⟨0, v.headerSize⟩).block (fun _ => 0) ∈ st.generated := by
      rw [hblocks]
      exact List.mem_map_of_mem (List.mem_range.2 (show 1 < 2 by omega))
    obtain ⟨haligned, -⟩ := h _ _ _ _ hrun _ hmem
    have hoffset : 8 ∣ 8192 + (v.headerSize + 36) := haligned
    cases v <;> revert hoffset <;> decide
  exact ⟨hodd .task04 (by decide), hodd .task05 (by decide)⟩

end EltexPractice.SharedList
