import EltexPractice.SharedList.Chain

/-!
# The sections of the producer

What `init_producer_ipc` leaves in the segment, and what one pass of `run_generation_loop` does to
it: it appends a block with the elements it drew, or sets `producer_done` because a block may not
fit any more.
-/

namespace EltexPractice.SharedList

open MemM

/-! ## Initialisation -/

/-- The header fields `init_producer_ipc` writes in both versions. -/
theorem represents_header {v : Version} {m : Bytes} (hlimit : v = .task05 → word m 0 = shmSize) :
    let m' := writeBytes (writeBytes (writeBytes m v.firstBlockOffset (leBytes 8 0)) v.freeOffset
      (leBytes 8 v.headerSize)) v.producerDone (leBytes 4 0)
    Represents v m' 0 [] ∧ done v m' = 0 ∧ word m' v.freeOffset = v.headerSize := by
  intro m'
  have hfields := v.fields
  have hfree : word m' v.freeOffset = v.headerSize := by
    rw [word_writeBytes_of_disjoint (by omega), word_writeBytes (by omega)]
  refine ⟨⟨fun hv => ?_, ?_, ?_, ?_, trivial, nofun, le_rfl⟩, ?_, hfree⟩
  · have hlow : 8 ≤ v.firstBlockOffset := by
      rw [hv]
      decide
    rw [word_writeBytes_of_disjoint (by omega), word_writeBytes_of_disjoint (by omega),
      word_writeBytes_of_disjoint (by omega)]
    exact hlimit hv
  · rw [word_writeBytes_of_disjoint (by omega), word_writeBytes_of_disjoint (by omega),
      word_writeBytes (by omega)]
    rfl
  · exact hfree.symm
  · rw [hfree, shmSize]
    omega
  · exact leValue_writeBytes (by omega) _ _

/-- The header of `init_producer_ipc`, whatever the segment held before. -/
theorem initProducerIpc_spec (v : Version) {s : Mem} (hw : s.Within {i | i < v.headerSize}) :
    (initProducerIpc v).wp (fun _ s' => Represents v s'.bytes 0 [] ∧ done v s'.bytes = 0 ∧
      s'.Within {i | i < word s'.bytes v.freeOffset}) s := by
  have hbound : ∀ {s : Mem} {a w x}, s.Within {i | i < v.headerSize} → a + w ≤ v.headerSize →
      (s.write a (leBytes w x)).Within {i | i < v.headerSize} := fun h ha =>
    h.write (by rwa [length_leBytes])
  unfold initProducerIpc
  cases v with
  | task04 =>
    obtain ⟨hrepr, hdone, hfree⟩ := represents_header (v := .task04) (m := s.bytes) nofun
    simp only [wp_bind, wp_store, Mem.bytes_write]
    refine ⟨hrepr, hdone, ?_⟩
    rw [hfree]
    exact hbound (hbound (hbound hw (by decide)) (by decide)) (by decide)
  | task05 =>
    obtain ⟨hrepr, hdone, hfree⟩ := represents_header (v := .task05)
      (m := writeBytes s.bytes 0 (leBytes 8 shmSize)) fun _ =>
        word_writeBytes (by decide) s.bytes 0
    simp only [wp_bind, wp_store, Mem.bytes_write]
    refine ⟨hrepr, hdone, ?_⟩
    rw [hfree]
    exact hbound (hbound (hbound (hbound hw (by decide)) (by decide)) (by decide)) (by decide)

/-! ## One block -/

/-- The `k` elements drawn from the `i`-th call of `rand` on. -/
def draw (rand : ℕ → ℕ) : (k i : ℕ) → List ℤ
  | 0, _ => []
  | k + 1, i => ((rand i % 100 : ℕ) : ℤ) :: draw rand k (i + 1)

theorem fillLoop_spec {rand : ℕ → ℕ} {s : Mem} {z block k i : ℕ}
    (hz : block + sizeofBlock + 4 * (i + k) ≤ z) (hw : s.Within {i | i < z}) :
    (fillLoop rand block k i).wp (fun r s' => r = draw rand k i ∧
      ints s'.bytes (block + sizeofBlock + 4 * i) k = draw rand k i ∧
      (∀ j, j < block + sizeofBlock + 4 * i ∨ block + sizeofBlock + 4 * (i + k) ≤ j →
        s'.bytes j = s.bytes j) ∧ s'.Within {i | i < z}) s := by
  induction k generalizing i s with
  | zero => exact ⟨rfl, rfl, fun _ _ => rfl, hw⟩
  | succ k ih =>
    have hlt : rand i % 100 < 100 := Nat.mod_lt _ (by decide)
    have hdata : ∀ m : Bytes, toInt (leValue (bytesAt
        (writeBytes m (block + sizeofBlock + 4 * i) (leBytes 4 (rand i % 100)))
          (block + sizeofBlock + 4 * i) 4)) = ((rand i % 100 : ℕ) : ℤ) := fun m => by
      rw [leValue_writeBytes (by omega), toInt_eq_self (by omega) (by omega)]
    have hw₁ := hw.write (show block + sizeofBlock + 4 * i + (leBytes 4 (rand i % 100)).length ≤ z
      by rw [length_leBytes]; omega)
    have hw₂ := hw₁.touch (show block + sizeofBlock + 4 * i + 4 ≤ z by omega)
    rw [fillLoop]
    simp only [wp_bind, wp_store, wp_load, Mem.bytes_write, hdata]
    refine wp_mono (ih (by omega) hw₂) fun r s' hr => ?_
    obtain ⟨rfl, hints, hsame, hwithin⟩ := hr
    have hkept : ∀ j, j < block + sizeofBlock + 4 * (i + 1) → s'.bytes j =
        writeBytes s.bytes (block + sizeofBlock + 4 * i) (leBytes 4 (rand i % 100)) j :=
      fun j hj => hsame j (Or.inl hj)
    rw [wp_pure]
    refine ⟨rfl, ?_, fun j hj => ?_, hwithin⟩
    · rw [ints, draw, ← hints, bytesAt_congr fun j _ hj => hkept j (by omega), hdata, Nat.mul_succ,
        Nat.add_assoc]
    · rw [hsame j (by omega), Mem.bytes_touch, Mem.bytes_write]
      exact writeBytes_leBytes_of_notMem (by omega)

/-- A new block is held by its region; the other bytes stay. -/
theorem placeBlock_spec {rand : ℕ → ℕ} {s : Mem} {z block n : ℕ}
    (hz : block + sizeofBlock + 4 * n ≤ z) (hn : n < 2 ^ 64) (hw : s.Within {i | i < z}) :
    (placeBlock rand block n).wp (fun r s' => r = draw rand n 0 ∧
      Holds s'.bytes ⟨block, n, r⟩ n 0 ∧
      (∀ j, j < block ∨ block + sizeofBlock + 4 * n ≤ j → s'.bytes j = s.bytes j) ∧
      s'.Within {i | i < z}) s := by
  have h16 : sizeofBlock = 16 := rfl
  have hw₁ := hw.write (show block + (leBytes 8 n).length ≤ z by rw [length_leBytes]; omega)
  have hw₂ := hw₁.write (show block + 8 + (leBytes 8 0).length ≤ z by rw [length_leBytes]; omega)
  unfold placeBlock
  simp only [wp_bind, wp_store]
  refine wp_mono (fillLoop_spec (by omega) hw₂) fun r s' hr => ?_
  obtain ⟨rfl, hints, hsame, hwithin⟩ := hr
  simp only [Mem.bytes_write, Nat.mul_zero, Nat.add_zero, Nat.zero_add] at hints hsame
  have hnum : word s'.bytes block = n := by
    rw [word_congr fun j _ hj => hsame j (by omega), word_writeBytes_of_disjoint (by omega),
      word_writeBytes hn]
  have hnext : word s'.bytes (block + 8) = 0 := by
    rw [word_congr fun j _ hj => hsame j (by omega), word_writeBytes (by omega)]
  refine ⟨rfl, ⟨hnum, hnext, hints⟩, fun j hj => ?_, hwithin⟩
  rw [hsame j (by omega), writeBytes_leBytes_of_notMem (by omega),
    writeBytes_leBytes_of_notMem (by omega)]

/-! ## The list with the new block -/

/-- Where the offset of a new block goes: to `first_block_offset`, or to `next_block_offset` of
the last block. -/
def linkField (v : Version) (gs : List Generated) : ℕ :=
  match gs.getLast? with
  | none => v.firstBlockOffset
  | some last => last.offset + 8

theorem linkField_concat (v : Version) (gs : List Generated) (last : Generated) :
    linkField v (gs ++ [last]) = last.offset + 8 := by
  rw [linkField, List.getLast?_concat]

/-- The field lies below the free region, and it is `first_block_offset` or part of a block. -/
theorem Represents.linkField_bounds {v : Version} {m : Bytes} {k : ℕ} {gs : List Generated}
    (h : Represents v m k gs) : linkField v gs + 8 ≤ word m v.freeOffset ∧
      v.firstBlockOffset ≤ linkField v gs ∧
      (linkField v gs + 8 ≤ v.freeOffset ∨ v.headerSize ≤ linkField v gs) := by
  have hfields := v.fields
  have hstart := h.tiles.le
  rcases List.eq_nil_or_concat gs with rfl | ⟨gs', last, rfl⟩
  · rw [linkField]
    simp only [List.getLast?_nil]
    omega
  · rw [List.concat_eq_append] at h ⊢
    have hlast := h.tiles.mem (List.mem_append_right gs' (List.mem_singleton_self last))
    have hsize := last.size_eq
    rw [linkField_concat]
    omega

/-- The segment with one more block. -/
theorem Represents.generate {v : Version} {m m₁ : Bytes} {k : ℕ} {gs : List Generated}
    {g : Generated} (h : Represents v m k gs) (hg : g.offset = word m v.freeOffset)
    (hcount : 5 ≤ g.count ∧ g.count ≤ 15) (hroom : g.offset + g.size ≤ shmSize)
    (hnew : Holds m₁ g g.count 0)
    (hsame : ∀ i, i < g.offset ∨ g.offset + g.size ≤ i → m₁ i = m i) :
    let m' := writeBytes (writeBytes m₁ (linkField v gs) (leBytes 8 g.offset)) v.freeOffset
      (leBytes 8 (g.offset + g.size))
    Represents v m' k (gs ++ [g]) ∧ done v m' = done v m ∧
      word m' v.freeOffset = g.offset + g.size := by
  intro m'
  have hfields := v.fields
  have hstart := h.tiles.le
  have hsize := g.size_eq
  have hroom' : g.offset + g.size ≤ 4096 := hroom
  have hlink := h.linkField_bounds
  have hother : ∀ i, (i < g.offset ∨ g.offset + g.size ≤ i) →
      (i < linkField v gs ∨ linkField v gs + 8 ≤ i) →
      (i < v.freeOffset ∨ v.freeOffset + 8 ≤ i) → m' i = m i := fun i h₁ h₂ h₃ =>
    (writeBytes_leBytes_of_notMem h₃).trans
      ((writeBytes_leBytes_of_notMem h₂).trans (hsame i h₁))
  have hfree : word m' v.freeOffset = g.offset + g.size := word_writeBytes (by omega) _ _
  have hlinkword : word m' (linkField v gs) = g.offset := by
    rw [word_writeBytes_of_disjoint (by omega), word_writeBytes (by omega)]
  have hblock : Holds m' g g.count 0 := hnew.congr fun i h₁ h₂ =>
    (writeBytes_leBytes_of_notMem (by omega)).trans (writeBytes_leBytes_of_notMem (by omega))
  have hlist : word m' v.firstBlockOffset = headOffset (gs ++ [g]) ∧ Linked m' k (gs ++ [g]) := by
    rcases List.eq_nil_or_concat gs with rfl | ⟨gs', last, rfl⟩
    · obtain rfl : k = 0 := Nat.le_zero.1 h.processed
      exact ⟨hlinkword, hblock, trivial⟩
    · rw [List.concat_eq_append] at *
      have hlast := h.tiles.mem (List.mem_append_right gs' (List.mem_singleton_self last))
      rw [linkField_concat] at hlinkword hother
      refine ⟨?_, h.linked.concat h.tiles h.processed
        (fun i h₁ h₂ h₃ => hother i (by omega) (by omega) (by omega)) hlinkword hblock⟩
      rw [headOffset_concat (by simp), ← h.first]
      exact word_congr fun i _ h₂ => hother i (by omega) (by omega) (by omega)
  refine ⟨⟨fun hv => ?_, hlist.1, ?_, ?_, hlist.2, fun g' hg' => ?_, ?_⟩, ?_, hfree⟩
  · have hlow : 8 ≤ v.firstBlockOffset := by
      rw [hv]
      decide
    rw [← h.limit hv]
    exact word_congr fun i _ h₂ => hother i (by omega) (by omega) (by omega)
  · rw [hfree, hg]
    exact h.tiles.concat hg
  · rw [hfree]
    exact hroom
  · rcases List.mem_append.1 hg' with hg' | hg'
    · exact h.counts g' hg'
    · rw [List.mem_singleton.1 hg']
      exact hcount
  · rw [List.length_append]
    exact h.processed.trans (Nat.le_add_right _ _)
  · unfold done
    rw [bytesAt_congr fun i h₁ h₂ => hother i (by omega) (by omega) (by omega)]

theorem linkBlock_spec {v : Version} {gs : List Generated} {s : Mem} {z lastBlockOffset : ℕ}
    (hfirst : word s.bytes v.firstBlockOffset = headOffset gs) (hpos : ∀ g ∈ gs, 0 < g.offset)
    (hlast : ∀ g ∈ gs.getLast?, g.offset = lastBlockOffset)
    (hz : v.firstBlockOffset + 8 ≤ z ∧ linkField v gs + 8 ≤ z) (hw : s.Within {i | i < z})
    (block : ℕ) :
    (linkBlock v lastBlockOffset block).wp (fun _ s' =>
      s'.bytes = writeBytes s.bytes (linkField v gs) (leBytes 8 block) ∧
        s'.Within {i | i < z}) s := by
  have hfirst : leValue (bytesAt s.bytes v.firstBlockOffset 8) = headOffset gs := hfirst
  have hw₁ := hw.touch hz.1
  have hw₂ := hw₁.write (l := leBytes 8 block) (by rw [length_leBytes]; exact hz.2)
  unfold linkBlock
  rw [wp_bind, wp_load, hfirst]
  rcases List.eq_nil_or_concat gs with rfl | ⟨gs', last, rfl⟩
  · rw [headOffset, if_pos rfl, wp_store]
    exact ⟨rfl, hw₂⟩
  · rw [List.concat_eq_append] at *
    have hne : headOffset (gs' ++ [last]) ≠ 0 := by
      cases gs' with
      | nil => exact (hpos last (by simp)).ne'
      | cons g' gs' => exact (hpos g' (by simp)).ne'
    obtain rfl := hlast last (by simp)
    rw [linkField_concat] at hw₂ ⊢
    rw [if_neg hne, wp_store]
    exact ⟨rfl, hw₂⟩

theorem appendBlock_spec {v : Version} {rand : ℕ → ℕ} {s : Mem} {k n lastBlockOffset : ℕ}
    {gs : List Generated} (h : Represents v s.bytes k gs)
    (hw : s.Within {i | i < word s.bytes v.freeOffset})
    (hlast : ∀ g ∈ gs.getLast?, g.offset = lastBlockOffset) (hn : 5 ≤ n ∧ n ≤ 15)
    (hroom : word s.bytes v.freeOffset + (16 + 4 * n) ≤ 4096) {blockSize : ℕ}
    (hsum : addSize (word s.bytes v.freeOffset) blockSize =
      word s.bytes v.freeOffset + (16 + 4 * n)) :
    (appendBlock v rand lastBlockOffset n blockSize).wp (fun g s' =>
      s'.Within {i | i < word s'.bytes v.freeOffset} ∧ Represents v s'.bytes k (gs ++ [g]) ∧
      done v s'.bytes = done v s.bytes ∧ g.count = n ∧ g.elements = draw rand n 0) s := by
  have hfields := v.fields
  have hstart := h.tiles.le
  have hbounds := h.linkField_bounds
  have h16 : sizeofBlock = 16 := rfl
  have hfree : leValue (bytesAt s.bytes v.freeOffset 8) = word s.bytes v.freeOffset := rfl
  have hw₁ := (hw.mono fun i hi => lt_of_lt_of_le hi (Nat.le_add_right _ (16 + 4 * n))).touch
    (show v.freeOffset + 8 ≤ _ by omega)
  unfold appendBlock
  simp only [wp_bind, wp_load, hfree]
  refine wp_mono (placeBlock_spec (by omega) (by omega) hw₁) fun elements s₁ hs₁ => ?_
  obtain ⟨helements, hblock, hsame, hw₂⟩ := hs₁
  have hfirst : word s₁.bytes v.firstBlockOffset = headOffset gs := by
    rw [← h.first]
    exact word_congr fun i _ hi => hsame i (by omega)
  have hpos : ∀ g ∈ gs, 0 < g.offset := fun g hg => by
    have := (h.tiles.mem hg).1
    omega
  refine wp_mono (linkBlock_spec hfirst hpos hlast (by omega) hw₂ _) fun _ s₂ hs₂ => ?_
  obtain ⟨hbytes, hw₃⟩ := hs₂
  have hfree' : leValue (bytesAt (writeBytes s₁.bytes (linkField v gs)
      (leBytes 8 (word s.bytes v.freeOffset))) v.freeOffset 8) = word s.bytes v.freeOffset :=
    (word_writeBytes_of_disjoint (by omega)).trans (word_congr fun i _ hi => hsame i (by omega))
  have hw₄ := hw₃.touch (show v.freeOffset + 8 ≤ _ by omega)
  have hw₅ := hw₄.write (a := v.freeOffset)
    (l := leBytes 8 (word s.bytes v.freeOffset + (16 + 4 * n))) (by rw [length_leBytes]; omega)
  obtain ⟨g, hg⟩ : ∃ g : Generated, g = ⟨word s.bytes v.freeOffset, n, elements⟩ := ⟨_, rfl⟩
  have hoff : g.offset = word s.bytes v.freeOffset := by rw [hg]
  have hcount : g.count = n := by rw [hg]
  have hsize := g.size_eq
  rw [← hg, ← hcount] at hblock
  obtain ⟨hrepr, hdone, hstop⟩ := h.generate hoff (by omega)
    (show g.offset + g.size ≤ 4096 by omega) hblock fun i hi => hsame i (by omega)
  have hend : word s.bytes v.freeOffset + (16 + 4 * n) = g.offset + g.size := by omega
  simp only [wp_store, wp_pure, Mem.bytes_write, Mem.bytes_touch, hbytes, hfree', hsum, ← hg]
  rw [hend] at hw₅ ⊢
  rw [← hoff, hstop]
  exact ⟨hw₅, hrepr, hdone, hcount, by rw [hg]; exact helements⟩

/-! ## One pass -/

/-- Setting `producer_done` changes nothing else. -/
theorem Represents.stop {v : Version} {m : Bytes} {k : ℕ} {gs : List Generated}
    (h : Represents v m k gs) :
    Represents v (writeBytes m v.producerDone (leBytes 4 1)) k gs ∧
      done v (writeBytes m v.producerDone (leBytes 4 1)) = 1 ∧
      word (writeBytes m v.producerDone (leBytes 4 1)) v.freeOffset = word m v.freeOffset := by
  have hfields := v.fields
  have hword : ∀ a, a + 8 ≤ v.producerDone →
      word (writeBytes m v.producerDone (leBytes 4 1)) a = word m a :=
    fun a ha => word_writeBytes_of_disjoint (Or.inl ha)
  have hlinked : Linked (writeBytes m v.producerDone (leBytes 4 1)) k gs :=
    h.linked.congr h.tiles fun i h₁ _ => writeBytes_leBytes_of_notMem (by omega)
  exact ⟨h.of_header hword hlinked h.processed, leValue_writeBytes (by decide) _ _,
    hword _ (by omega)⟩

/-- What a pass of `run_generation_loop` has done. -/
def GenerationSpec (v : Version) (rand : ℕ → ℕ) (draws k : ℕ) (gs : List Generated)
    (m m' : Bytes) : Option Generated → Prop
  | none => Represents v m' k gs ∧ done v m' = 1 ∧ shmSize < word m' v.freeOffset + 76
  | some g =>
    Represents v m' k (gs ++ [g]) ∧ done v m' = done v m ∧ g.count = 5 + rand draws % 11 ∧
      g.elements = draw (fun i => rand (draws + 1 + i)) g.count 0

theorem limit_spec {v : Version} {s : Mem} (h : v = .task05 → word s.bytes 0 = shmSize) {z : ℕ}
    (hz : 8 ≤ z) (hw : s.Within {i | i < z}) :
    v.limit.wp (fun r s' => r = shmSize ∧ s'.bytes = s.bytes ∧ s'.Within {i | i < z}) s := by
  cases v with
  | task04 => exact ⟨rfl, rfl, hw⟩
  | task05 => exact ⟨h rfl, rfl, hw.touch hz⟩

theorem runGenerationLoop_spec {v : Version} {lastBlockOffset k : ℕ} {gs : List Generated}
    {s : Mem} (rand : ℕ → ℕ) (draws : ℕ) (h : Represents v s.bytes k gs)
    (hw : s.Within {i | i < word s.bytes v.freeOffset})
    (hlast : ∀ g ∈ gs.getLast?, g.offset = lastBlockOffset) :
    (runGenerationLoop v rand draws lastBlockOffset).wp (fun r s' =>
      s'.Within {i | i < word s'.bytes v.freeOffset} ∧
        GenerationSpec v rand draws k gs s.bytes s'.bytes r) s := by
  have hfields := v.fields
  have hstart := h.tiles.le
  have hroom : word s.bytes v.freeOffset ≤ 4096 := h.free_le
  have h16 : sizeofBlock = 16 := rfl
  set n := 5 + rand draws % 11 with hn
  have hfree : leValue (bytesAt s.bytes v.freeOffset 8) = word s.bytes v.freeOffset := rfl
  have hsum : addSize (word s.bytes v.freeOffset) (sizeofBlock + n * 4) =
      word s.bytes v.freeOffset + (16 + 4 * n) := by
    rw [addSize, Nat.mod_eq_of_lt (by omega)]
    omega
  have hw₁ := hw.touch (show v.freeOffset + 8 ≤ _ by omega)
  have hlimit : v = .task05 → word (s.touch v.freeOffset 8).bytes 0 = shmSize := h.limit
  unfold runGenerationLoop
  simp only [wp_bind, wp_load, hfree, ← hn]
  refine wp_mono (limit_spec hlimit (by omega) hw₁) fun limit s₁ hs₁ => ?_
  obtain ⟨rfl, hbytes, hw₂⟩ := hs₁
  rw [Mem.bytes_touch] at hbytes
  rw [hsum, ← hbytes]
  rw [← hbytes] at h hstart hroom hw₂ hsum hfree
  split
  · rename_i hfull
    obtain ⟨hrepr, hdone, hfree'⟩ := h.stop
    have hw₃ := hw₂.write (a := v.producerDone) (l := leBytes 4 1) (by rw [length_leBytes]; omega)
    rw [wp_bind, wp_store, wp_pure, Mem.bytes_write, hfree']
    refine ⟨hw₃, hrepr, hdone, ?_⟩
    rw [hfree']
    omega
  · rename_i hfits
    have hlt : word s₁.bytes v.freeOffset + (16 + 4 * n) ≤ 4096 := Nat.not_lt.1 hfits
    rw [wp_bind]
    refine wp_mono (appendBlock_spec h hw₂ hlast (by omega) hlt hsum) fun g s₂ hs₂ => ?_
    obtain ⟨hw₃, hrepr, hdone, hcount, helements⟩ := hs₂
    rw [← hcount] at helements
    exact ⟨hw₃, hrepr, hdone, hcount.trans hn, helements⟩

/-- The pass ends the loop exactly when the block it drew does not fit. -/
theorem runGenerationLoop_eq_none {v : Version} {k : ℕ} {gs : List Generated} {s : Mem}
    (rand : ℕ → ℕ) (draws lastBlockOffset : ℕ) (h : Represents v s.bytes k gs)
    (hw : s.Within {i | i < word s.bytes v.freeOffset}) :
    ((runGenerationLoop v rand draws lastBlockOffset).run s).1 = none ↔
      shmSize < word s.bytes v.freeOffset + (16 + 4 * (5 + rand draws % 11)) := by
  have hfields := v.fields
  have hstart := h.tiles.le
  have hroom : word s.bytes v.freeOffset ≤ 4096 := h.free_le
  have h16 : sizeofBlock = 16 := rfl
  have hfree : leValue (bytesAt s.bytes v.freeOffset 8) = word s.bytes v.freeOffset := rfl
  have hsum : addSize (word s.bytes v.freeOffset) (sizeofBlock + (5 + rand draws % 11) * 4) =
      word s.bytes v.freeOffset + (16 + 4 * (5 + rand draws % 11)) := by
    rw [addSize, Nat.mod_eq_of_lt (by omega)]
    omega
  have hw₁ := hw.touch (show v.freeOffset + 8 ≤ _ by omega)
  change (runGenerationLoop v rand draws lastBlockOffset).wp (fun r _ => r = none ↔ _) s
  unfold runGenerationLoop
  simp only [wp_bind, wp_load, hfree]
  refine wp_mono (limit_spec (s := s.touch v.freeOffset 8) h.limit (by omega) hw₁)
    fun limit s₁ hs₁ => ?_
  rw [hs₁.1, hsum]
  split
  · rename_i hfull
    rw [wp_bind, wp_store, wp_pure]
    exact iff_of_true rfl hfull
  · rename_i hfits
    rw [wp_bind]
    exact iff_of_false (Option.some_ne_none _) hfits

end EltexPractice.SharedList
