import EltexPractice.SharedList.Chain
import Mathlib.Order.Bounds.Defs

/-!
# The walks over the list

The critical sections that search the list for a block that is not processed: what they return, and
what the segment represents afterwards. A search ends once its fuel exceeds the number of blocks,
and every access lies below `free_offset`.
-/

namespace EltexPractice.SharedList

open MemM

/-! ## The search -/

theorem search_spec {s : Mem} {a z k fuel : ℕ} {gs : List Generated} (htiles : Tiles a gs z)
    (ha : 0 < a) (hcount : ∀ g ∈ gs, 5 ≤ g.count) (h : Linked s.bytes k gs)
    (hw : s.Within {i | i < z}) :
    (search fuel (headOffset gs)).wp (fun r s' => s'.bytes = s.bytes ∧ s'.Within {i | i < z} ∧
      (gs.length < fuel → r ≠ none) ∧ ∀ found ∈ r, found = gs[k]?.map (·.offset)) s := by
  induction fuel generalizing a k gs s with
  | zero => exact ⟨rfl, hw, fun hfuel => absurd hfuel (Nat.not_lt_zero _), fun _ => nofun⟩
  | succ fuel ih =>
    cases gs with
    | nil =>
      rw [headOffset, search, if_pos rfl, wp_pure]
      exact ⟨rfl, hw, fun _ => nofun, fun found hr => (Option.some.inj hr).symm⟩
    | cons g gs =>
      have hoff := htiles.1
      have hend := htiles.2.le
      have hsize := g.size_eq
      have hpos := hcount g List.mem_cons_self
      have hnum : leValue (bytesAt s.bytes g.offset 8) = if k = 0 then g.count else 0 :=
        h.1.numElements
      have hnext : leValue (bytesAt s.bytes (g.offset + 8) 8) = headOffset gs := h.1.next
      have hw₁ := hw.touch (show g.offset + 8 ≤ z by omega)
      have hw₂ := hw₁.touch (show g.offset + 8 + 8 ≤ z by omega)
      rw [headOffset, search, if_neg (by omega)]
      simp only [wp_bind, wp_load]
      cases k with
      | zero =>
        rw [hnum, if_pos rfl, if_pos (by omega), wp_pure]
        exact ⟨rfl, hw₁, fun _ => nofun, fun found hr => (Option.some.inj hr).symm⟩
      | succ k =>
        rw [hnum, if_neg (Nat.succ_ne_zero k), if_neg (lt_irrefl 0)]
        simp only [wp_bind, wp_load, Mem.bytes_touch, hnext]
        have hlinked : Linked ((s.touch g.offset 8).touch (g.offset + 8) 8).bytes k gs := h.2
        have hrest := ih htiles.2 (by omega)
          (fun g' hg' => hcount g' (List.mem_cons_of_mem _ hg')) hlinked hw₂
        refine wp_mono hrest fun r s' hr => ⟨hr.1, hr.2.1, fun hfuel => hr.2.2.1 ?_, hr.2.2.2⟩
        simpa using hfuel

theorem findUnprocessed_spec {v : Version} {s : Mem} {k : ℕ} {gs : List Generated} (fuel : ℕ)
    (h : Represents v s.bytes k gs) (hw : s.Within {i | i < word s.bytes v.freeOffset}) :
    (findUnprocessed v fuel).wp (fun r s' => s'.bytes = s.bytes ∧
      s'.Within {i | i < word s.bytes v.freeOffset} ∧ (gs.length < fuel → r ≠ none) ∧
      ∀ found ∈ r, found = gs[k]?.map (·.offset)) s := by
  have hfields := v.fields
  have hend := h.tiles.le
  have hfirst : leValue (bytesAt s.bytes v.firstBlockOffset 8) = headOffset gs := h.first
  have hw₁ := hw.touch (show v.firstBlockOffset + 8 ≤ _ by omega)
  have hlinked : Linked (s.touch v.firstBlockOffset 8).bytes k gs := h.linked
  unfold findUnprocessed
  rw [wp_bind, wp_load, hfirst]
  exact search_spec h.tiles (by omega) (fun g hg => (h.counts g hg).1) hlinked hw₁

theorem waitForProcessing_spec {v : Version} {s : Mem} {k : ℕ} {gs : List Generated} (fuel : ℕ)
    (h : Represents v s.bytes k gs) (hw : s.Within {i | i < word s.bytes v.freeOffset}) :
    (waitForProcessing v fuel).wp (fun r s' => s'.bytes = s.bytes ∧
      s'.Within {i | i < word s.bytes v.freeOffset} ∧ (gs.length < fuel → r ≠ none) ∧
      ∀ all ∈ r, all = true ↔ k = gs.length) s := by
  unfold waitForProcessing
  rw [wp_bind]
  refine wp_mono (findUnprocessed_spec fuel h hw) fun found s' hfound => ?_
  obtain ⟨hbytes, hwithin, hfuel, hres⟩ := hfound
  rw [wp_pure]
  refine ⟨hbytes, hwithin, fun hlt hnone => ?_, fun all hall => ?_⟩
  · exact hfuel hlt (Option.map_eq_none_iff.1 hnone)
  · obtain ⟨o, rfl, rfl⟩ := Option.map_eq_some_iff.1 hall
    obtain rfl := hres o rfl
    have hk : k ≤ gs.length := h.processed
    rw [Option.isNone_map, Option.isNone_iff_eq_none, List.getElem?_eq_none_iff]
    omega

/-! ## The consumer -/

/-- The value a loop keeps that replaces it by every element that is better. -/
def select (better : ℤ → ℤ → Prop) [DecidableRel better] (x : ℤ) (l : List ℤ) : ℤ :=
  l.foldl (fun best val => if better val best then val else best) x

/-- The loop keeps one of the values it has met, and none of them is better. -/
theorem select_spec (better : ℤ → ℤ → Prop) [DecidableRel better]
    (htrans : ∀ a b c, ¬ better a b → ¬ better b c → ¬ better a c)
    (hasymm : ∀ a b, better a b → ¬ better b a) (x : ℤ) (l : List ℤ) :
    select better x l ∈ x :: l ∧ ∀ y ∈ x :: l, ¬ better y (select better x l) := by
  have hirrefl : ∀ a, ¬ better a a := fun a h => hasymm a a h h
  induction l generalizing x with
  | nil => exact ⟨List.mem_singleton_self x, fun y hy => by
      rw [List.mem_singleton.1 hy]
      exact hirrefl x⟩
  | cons val l ih =>
    have hstep : select better x (val :: l) =
        select better (if better val x then val else x) l := rfl
    obtain ⟨hmem, hbest⟩ := ih (if better val x then val else x)
    rw [hstep]
    generalize select better (if better val x then val else x) l = z at hmem hbest ⊢
    have hkept := hbest _ List.mem_cons_self
    have htail := fun y hy => hbest y (List.mem_cons_of_mem _ hy)
    split at hmem
    · rename_i hval
      rw [if_pos hval] at hkept
      refine ⟨List.mem_cons_of_mem x hmem, List.forall_mem_cons.2 ⟨?_,
        List.forall_mem_cons.2 ⟨hkept, htail⟩⟩⟩
      exact htrans x val z (hasymm val x hval) hkept
    · rename_i hval
      rw [if_neg hval] at hkept
      refine ⟨?_, List.forall_mem_cons.2 ⟨hkept, List.forall_mem_cons.2 ⟨?_, htail⟩⟩⟩
      · rcases List.mem_cons.1 hmem with rfl | hmem
        · exact List.mem_cons_self
        · exact List.mem_cons_of_mem _ (List.mem_cons_of_mem _ hmem)
      · exact htrans val x z hval hkept

/-- The loop from the first element on keeps a best element. -/
theorem select_head_spec (better : ℤ → ℤ → Prop) [DecidableRel better]
    (htrans : ∀ a b c, ¬ better a b → ¬ better b c → ¬ better a c)
    (hasymm : ∀ a b, better a b → ¬ better b a) {l : List ℤ} (hl : l ≠ []) :
    select better (l.headD 0) l ∈ l ∧ ∀ y ∈ l, ¬ better y (select better (l.headD 0) l) := by
  obtain ⟨x, l, rfl⟩ := List.exists_cons_of_ne_nil hl
  obtain ⟨hmem, hbest⟩ := select_spec better htrans hasymm x (x :: l)
  refine ⟨?_, fun y hy => hbest y (List.mem_cons_of_mem x hy)⟩
  rcases List.mem_cons.1 hmem with heq | hmem
  · rw [List.headD_cons, heq]
    exact List.mem_cons_self
  · exact hmem

/-- The minimum of the loop over `data` is the least element. -/
theorem isLeast_select {l : List ℤ} (hl : l ≠ []) :
    IsLeast {x | x ∈ l} (select (· < ·) (l.headD 0) l) := by
  obtain ⟨hmem, hbest⟩ := select_head_spec (· < ·) (fun a b c h₁ h₂ => by omega)
    (fun a b h => by omega) hl
  exact ⟨hmem, fun y hy => Int.not_lt.1 (hbest y hy)⟩

/-- The maximum of the loop over `data` is the greatest element. -/
theorem isGreatest_select {l : List ℤ} (hl : l ≠ []) :
    IsGreatest {x | x ∈ l} (select (· > ·) (l.headD 0) l) := by
  obtain ⟨hmem, hbest⟩ := select_head_spec (· > ·) (fun a b c h₁ h₂ => by omega)
    (fun a b h => by omega) hl
  exact ⟨hmem, fun y hy => Int.not_lt.1 (hbest y hy)⟩

theorem scanLoop_spec {s : Mem} {z block k i : ℕ} (min max : ℤ)
    (hz : block + sizeofBlock + 4 * (i + k) ≤ z) (hw : s.Within {i | i < z}) :
    (scanLoop block k i min max).wp (fun r s' => s'.bytes = s.bytes ∧ s'.Within {i | i < z} ∧
      r.elements = ints s.bytes (block + sizeofBlock + 4 * i) k ∧
      r.min = select (· < ·) min r.elements ∧ r.max = select (· > ·) max r.elements) s := by
  induction k generalizing i min max s with
  | zero => exact ⟨rfl, hw, rfl, rfl, rfl⟩
  | succ k ih =>
    have hw' := hw.touch (show block + sizeofBlock + 4 * i + 4 ≤ z by omega)
    rw [scanLoop]
    simp only [wp_bind, wp_load]
    refine wp_mono (ih _ _ (by omega) hw') fun r s' hr => ?_
    obtain ⟨hbytes, hwithin, helements, hmin, hmax⟩ := hr
    rw [wp_pure]
    refine ⟨hbytes, hwithin, ?_, ?_, ?_⟩
    · simp only [ints, helements, Mem.bytes_touch, Nat.mul_succ, Nat.add_assoc]
    · simp only [hmin, select, List.foldl_cons]
    · simp only [hmax, select, List.foldl_cons]

/-- What a consumer reports about a block. -/
def reportOf (consumer : ℕ) (g : Generated) : Report where
  consumer
  offset := g.offset
  count := g.count
  elements := g.elements
  min := select (· < ·) (g.elements.headD 0) g.elements
  max := select (· > ·) (g.elements.headD 0) g.elements

/-- The first element of `data`. -/
theorem Holds.head {m : Bytes} {g : Generated} {numElements next : ℕ}
    (h : Holds m g numElements next) (hcount : 5 ≤ g.count) :
    toInt (leValue (bytesAt m (g.offset + sizeofBlock) 4)) = g.elements.headD 0 := by
  obtain ⟨n, hn⟩ := Nat.exists_eq_add_of_le' hcount
  rw [← h.data, hn, ints, List.headD_cons]

/-- The segment with its first unprocessed block marked as processed. -/
theorem Represents.process {v : Version} {m : Bytes} {k : ℕ} {gs : List Generated} {g : Generated}
    (h : Represents v m k gs) (hg : gs[k]? = some g) :
    Represents v (writeBytes m g.offset (leBytes 8 0)) (k + 1) gs ∧
      done v (writeBytes m g.offset (leBytes 8 0)) = done v m ∧
      word (writeBytes m g.offset (leBytes 8 0)) v.freeOffset = word m v.freeOffset := by
  have hmem := List.mem_of_getElem? hg
  have hlow := (h.tiles.mem hmem).1
  have hfields := v.fields
  have hsame : ∀ i, i < g.offset ∨ g.offset + 8 ≤ i →
      writeBytes m g.offset (leBytes 8 0) i = m i := fun i hi => writeBytes_leBytes_of_notMem hi
  have hword : ∀ a, a + 8 ≤ g.offset → word (writeBytes m g.offset (leBytes 8 0)) a = word m a :=
    fun a ha => word_writeBytes_of_disjoint (Or.inl ha)
  have hlinked : Linked (writeBytes m g.offset (leBytes 8 0)) (k + 1) gs :=
    h.linked.process h.tiles hg (fun i _ _ hi => hsame i hi)
      (word_writeBytes (by omega) m g.offset)
  obtain ⟨hlt, -⟩ := List.getElem?_eq_some_iff.1 hg
  refine ⟨h.of_header (fun a ha => hword a (by omega)) hlinked hlt, ?_, hword _ (by omega)⟩
  unfold done
  rw [bytesAt_congr fun i h₁ h₂ => hsame i (by omega)]

theorem Linked.holds {m : Bytes} {k : ℕ} {gs : List Generated} {g : Generated}
    (h : Linked m k gs) (hg : gs[k]? = some g) : ∃ next, Holds m g g.count next := by
  induction gs generalizing k with
  | nil => cases hg
  | cons g' gs ih =>
    cases k with
    | zero =>
      obtain rfl : g' = g := by simpa using hg
      exact ⟨_, h.1⟩
    | succ k => exact ih h.2 (by simpa using hg)

theorem processBlock_spec {v : Version} {s : Mem} {k : ℕ} {gs : List Generated} {g : Generated}
    (h : Represents v s.bytes k gs) (hg : gs[k]? = some g)
    (hw : s.Within {i | i < word s.bytes v.freeOffset}) (consumer : ℕ) :
    (processBlock consumer g.offset).wp (fun r s' => r = reportOf consumer g ∧
      s'.bytes = writeBytes s.bytes g.offset (leBytes 8 0) ∧
      s'.Within {i | i < word s.bytes v.freeOffset}) s := by
  have hmem := List.mem_of_getElem? hg
  have hend := (h.tiles.mem hmem).2
  have hsize := g.size_eq
  have h16 : sizeofBlock = 16 := rfl
  obtain ⟨next, hholds⟩ := h.linked.holds hg
  have hhead := hholds.head (h.counts g hmem).1
  have hnum : leValue (bytesAt s.bytes g.offset 8) = g.count := hholds.numElements
  have hcount := (h.counts g hmem).1
  have hw₁ := hw.touch (show g.offset + 8 ≤ _ by omega)
  have hw₂ := hw₁.touch (show g.offset + sizeofBlock + 4 ≤ _ by omega)
  have hw₃ := hw₂.touch (show g.offset + sizeofBlock + 4 ≤ _ by omega)
  unfold processBlock
  simp only [wp_bind, wp_load, Mem.bytes_touch, hnum, hhead]
  refine wp_mono (scanLoop_spec _ _ (by omega) hw₃) fun r s' hr => ?_
  obtain ⟨hbytes, hwithin, helements, hmin, hmax⟩ := hr
  simp only [Mem.bytes_touch, Nat.mul_zero, Nat.add_zero, hholds.data] at hbytes helements
  rw [wp_store, wp_pure, hmin, hmax, helements]
  refine ⟨rfl, ?_, hwithin.write ?_⟩
  · rw [Mem.bytes_write, hbytes]
  · rw [length_leBytes]
    omega

/-- What a pass of a consumer has done. -/
def PassSpec (v : Version) (consumer k : ℕ) (gs : List Generated) (m m' : Bytes) : Pass → Prop
  | .processed r =>
    ∃ g, gs[k]? = some g ∧ r = reportOf consumer g ∧ Represents v m' (k + 1) gs
  | .waits => k = gs.length ∧ done v m = 0 ∧ m' = m
  | .leaves => k = gs.length ∧ done v m ≠ 0 ∧ m' = m

theorem runConsumerLoop_spec {v : Version} {s : Mem} {k : ℕ} {gs : List Generated}
    (fuel consumer : ℕ) (h : Represents v s.bytes k gs)
    (hw : s.Within {i | i < word s.bytes v.freeOffset}) :
    (runConsumerLoop v fuel consumer).wp (fun r s' =>
      s'.Within {i | i < word s'.bytes v.freeOffset} ∧ done v s'.bytes = done v s.bytes ∧
      word s'.bytes v.freeOffset = word s.bytes v.freeOffset ∧ (gs.length < fuel → r ≠ none) ∧
      ∀ pass ∈ r, PassSpec v consumer k gs s.bytes s'.bytes pass) s := by
  have hfields := v.fields
  unfold runConsumerLoop
  rw [wp_bind]
  refine wp_mono (findUnprocessed_spec fuel h hw) fun found s' hfound => ?_
  obtain ⟨hbytes, hwithin, hfuel, hres⟩ := hfound
  rw [← hbytes] at h hw hwithin ⊢
  split
  · rw [wp_pure]
    exact ⟨hwithin, rfl, rfl, fun hlt => absurd rfl (hfuel hlt), fun _ hpass => by cases hpass⟩
  · rename_i block
    obtain ⟨g, hg, rfl⟩ := Option.map_eq_some_iff.1 (hres _ rfl).symm
    rw [wp_bind]
    refine wp_mono (processBlock_spec h hg hwithin consumer) fun r s'' hr => ?_
    obtain ⟨rfl, hbytes', hwithin'⟩ := hr
    obtain ⟨hrepr, hdone, hfree⟩ := h.process hg
    rw [wp_pure, hbytes', hfree]
    refine ⟨hwithin', hdone, rfl, fun _ => nofun, fun pass hpass => ?_⟩
    obtain rfl := Option.some.inj hpass
    exact ⟨g, hg, rfl, hrepr⟩
  · have hk : k = gs.length := by
      have hnone := List.getElem?_eq_none_iff.1 (Option.map_eq_none_iff.1 (hres _ rfl).symm)
      exact le_antisymm h.processed hnone
    have hend := h.tiles.le
    have hw₁ := hwithin.touch (show v.producerDone + 4 ≤ _ by omega)
    rw [wp_bind, wp_load, ← done]
    split
    · rename_i hdone
      rw [wp_pure]
      refine ⟨hw₁, rfl, rfl, fun _ => nofun, fun pass hpass => ?_⟩
      obtain rfl := Option.some.inj hpass
      exact ⟨hk, hdone, rfl⟩
    · rename_i hdone
      rw [wp_pure]
      refine ⟨hw₁, rfl, rfl, fun _ => nofun, fun pass hpass => ?_⟩
      obtain rfl := Option.some.inj hpass
      exact ⟨hk, not_not.1 hdone, rfl⟩

end EltexPractice.SharedList
