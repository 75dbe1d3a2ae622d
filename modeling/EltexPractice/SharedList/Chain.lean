import EltexPractice.SharedList.Model

/-!
# Blocks in memory

What a memory has to hold for a list of blocks. `Tiles a gs z` says that the blocks `gs` lie one
behind the other from `a` to `z`; `Linked m k gs` says that `m` holds them, each linked to the
next, the first `k` marked as processed. Appending a block and processing the `k`-th one are the
two ways a linked list changes (`Linked.concat`, `Linked.process`); each leaves the bytes of the
other blocks alone, which `Tiles` turns into inequalities between addresses. `Represents` puts the
header and the list together.
-/

namespace EltexPractice.SharedList

/-! ## Words -/

/-- The `size_t` at an address. -/
def word (m : Bytes) (a : ℕ) : ℕ := leValue (bytesAt m a 8)

/-- The `n` `int`s from an address on. -/
def ints (m : Bytes) : (a n : ℕ) → List ℤ
  | _, 0 => []
  | a, n + 1 => toInt (leValue (bytesAt m a 4)) :: ints m (a + 4) n

theorem word_congr {m m' : Bytes} {a : ℕ} (h : ∀ i, a ≤ i → i < a + 8 → m i = m' i) :
    word m a = word m' a := by
  rw [word, word, bytesAt_congr h]

theorem ints_congr {m m' : Bytes} {a n : ℕ} (h : ∀ i, a ≤ i → i < a + 4 * n → m i = m' i) :
    ints m a n = ints m' a n := by
  induction n generalizing a with
  | zero => rfl
  | succ n ih =>
    have hfirst : bytesAt m a 4 = bytesAt m' a 4 :=
      bytesAt_congr fun i h₁ h₂ => h i h₁ (by omega)
    rw [ints, ints, hfirst, ih fun i h₁ h₂ => h i (by omega) (by omega)]

/-- A stored `size_t` is read back. -/
theorem word_writeBytes {v : ℕ} (hv : v < 2 ^ 64) (m : Bytes) (a : ℕ) :
    word (writeBytes m a (leBytes 8 v)) a = v :=
  leValue_writeBytes (lt_of_lt_of_eq hv (by decide)) m a

theorem word_writeBytes_of_disjoint {m : Bytes} {a b w v : ℕ} (h : b + 8 ≤ a ∨ a + w ≤ b) :
    word (writeBytes m a (leBytes w v)) b = word m b :=
  word_congr fun _ _ _ => writeBytes_leBytes_of_notMem (by omega)

/-! ## Tiling -/

/-- The bytes of a block. -/
def Generated.size (g : Generated) : ℕ := sizeofBlock + 4 * g.count

theorem Generated.size_eq (g : Generated) : g.size = 16 + 4 * g.count := rfl

/-- The blocks lie one behind the other from `a` to `z`. -/
def Tiles : (a : ℕ) → List Generated → (z : ℕ) → Prop
  | a, [], z => a = z
  | a, g :: gs, z => g.offset = a ∧ Tiles (a + g.size) gs z

theorem Tiles.le {a z : ℕ} {gs : List Generated} (h : Tiles a gs z) : a ≤ z := by
  induction gs generalizing a with
  | nil => exact le_of_eq h
  | cons g gs ih => exact (Nat.le_add_right _ _).trans (ih h.2)

/-- The blocks determine where their region ends. -/
theorem Tiles.unique {a z z' : ℕ} {gs : List Generated} (h : Tiles a gs z) (h' : Tiles a gs z') :
    z = z' := by
  induction gs generalizing a with
  | nil => exact Eq.trans (Eq.symm h) h'
  | cons g gs ih => exact ih h.2 h'.2

theorem Tiles.length_le {a z : ℕ} {gs : List Generated} (h : Tiles a gs z)
    (hcount : ∀ g ∈ gs, 5 ≤ g.count) : a + 36 * gs.length ≤ z := by
  induction gs generalizing a with
  | nil => exact le_of_eq h
  | cons g gs ih =>
    have hrest := ih h.2 fun g' hg' => hcount g' (List.mem_cons_of_mem _ hg')
    have hg := hcount g List.mem_cons_self
    rw [g.size_eq] at hrest
    rw [List.length_cons]
    omega

theorem Tiles.concat {a z : ℕ} {gs : List Generated} (h : Tiles a gs z) {g : Generated}
    (hg : g.offset = z) : Tiles a (gs ++ [g]) (z + g.size) := by
  induction gs generalizing a with
  | nil =>
    obtain rfl : a = z := h
    exact ⟨hg, rfl⟩
  | cons g' gs ih => exact ⟨h.1, ih h.2⟩

/-- The last block begins where the others end. -/
theorem Tiles.of_concat {a z : ℕ} {gs : List Generated} {g : Generated}
    (h : Tiles a (gs ++ [g]) z) : Tiles a gs g.offset ∧ g.offset + g.size = z := by
  induction gs generalizing a with
  | nil =>
    obtain ⟨rfl, hend⟩ := h
    exact ⟨rfl, hend⟩
  | cons g' gs ih => exact ⟨⟨h.1, (ih h.2).1⟩, (ih h.2).2⟩

theorem Tiles.mem {a z : ℕ} {gs : List Generated} (h : Tiles a gs z) {g : Generated}
    (hg : g ∈ gs) : a ≤ g.offset ∧ g.offset + g.size ≤ z := by
  induction gs generalizing a with
  | nil => cases hg
  | cons g' gs ih =>
    rcases List.mem_cons.1 hg with rfl | hg
    · rw [h.1]
      exact ⟨le_rfl, h.2.le⟩
    · have hrest := ih h.2 hg
      exact ⟨(Nat.le_add_right _ _).trans hrest.1, hrest.2⟩

/-- Every address of the region belongs to a block. -/
theorem Tiles.cover {a z x : ℕ} {gs : List Generated} (h : Tiles a gs z) (hax : a ≤ x)
    (hxz : x < z) : ∃ g ∈ gs, g.offset ≤ x ∧ x < g.offset + g.size := by
  induction gs generalizing a with
  | nil =>
    obtain rfl : a = z := h
    omega
  | cons g gs ih =>
    have hg := h.1
    rcases Nat.lt_or_ge x (a + g.size) with hlt | hge
    · exact ⟨g, List.mem_cons_self, by omega, by omega⟩
    · obtain ⟨g', hg', hx⟩ := ih h.2 hge
      exact ⟨g', List.mem_cons_of_mem _ hg', hx⟩

/-- The offsets increase strictly. -/
theorem Tiles.pairwise {a z : ℕ} {gs : List Generated} (h : Tiles a gs z) :
    (gs.map (·.offset)).Pairwise (· < ·) := by
  induction gs generalizing a with
  | nil => exact List.Pairwise.nil
  | cons g gs ih =>
    rw [List.map_cons, List.pairwise_cons]
    refine ⟨fun o ho => ?_, ih h.2⟩
    obtain ⟨g', hg', rfl⟩ := List.mem_map.1 ho
    have hlow := (h.2.mem hg').1
    have hsize := g.size_eq
    have hoff := h.1
    omega

/-! ## Linked blocks -/

/-- The offset of the first block, `0` when there is none. -/
def headOffset : List Generated → ℕ
  | [] => 0
  | g :: _ => g.offset

theorem headOffset_concat {gs : List Generated} (h : gs ≠ []) (g : Generated) :
    headOffset (gs ++ [g]) = headOffset gs := by
  cases gs with
  | nil => exact absurd rfl h
  | cons g' gs => rfl

/-- The fields of a block and its data. -/
structure Holds (m : Bytes) (g : Generated) (numElements next : ℕ) : Prop where
  numElements : word m g.offset = numElements
  next : word m (g.offset + 8) = next
  data : ints m (g.offset + sizeofBlock) g.count = g.elements

/-- The memory holds the blocks, linked in their order; the first `k` are processed. -/
def Linked (m : Bytes) : (k : ℕ) → List Generated → Prop
  | _, [] => True
  | k, g :: gs => Holds m g (if k = 0 then g.count else 0) (headOffset gs) ∧ Linked m (k - 1) gs

theorem Holds.congr {m m' : Bytes} {g : Generated} {numElements next : ℕ}
    (h : Holds m g numElements next)
    (hm : ∀ i, g.offset ≤ i → i < g.offset + g.size → m' i = m i) :
    Holds m' g numElements next := by
  have hsize := g.size_eq
  have h16 : sizeofBlock = 16 := rfl
  refine ⟨?_, ?_, ?_⟩
  · rw [← h.numElements]
    exact word_congr fun i h₁ h₂ => hm i h₁ (by omega)
  · rw [← h.next]
    exact word_congr fun i h₁ h₂ => hm i (by omega) (by omega)
  · rw [← h.data]
    exact ints_congr fun i h₁ h₂ => hm i (by omega) (by omega)

/-- The list depends on its own region only. -/
theorem Linked.congr {m m' : Bytes} {a z k : ℕ} {gs : List Generated} (htiles : Tiles a gs z)
    (h : Linked m k gs) (hm : ∀ i, a ≤ i → i < z → m' i = m i) : Linked m' k gs := by
  induction gs generalizing a k with
  | nil => trivial
  | cons g gs ih =>
    have hoff := htiles.1
    have hend := htiles.2.le
    exact ⟨h.1.congr fun i h₁ h₂ => hm i (by omega) (by omega),
      ih htiles.2 h.2 fun i h₁ h₂ => hm i (by omega) h₂⟩

/-- A block is appended: the last block is linked to it. -/
theorem Linked.concat {m m' : Bytes} {a z k : ℕ} {gs : List Generated} {last g : Generated}
    (htiles : Tiles a (gs ++ [last]) z) (h : Linked m k (gs ++ [last]))
    (hk : k ≤ (gs ++ [last]).length)
    (hm : ∀ i, a ≤ i → i < z → (i < last.offset + 8 ∨ last.offset + 16 ≤ i) → m' i = m i)
    (hlink : word m' (last.offset + 8) = g.offset) (hg : Holds m' g g.count 0) :
    Linked m' k (gs ++ [last] ++ [g]) := by
  induction gs generalizing a k with
  | nil =>
    have hoff : last.offset = a := htiles.1
    have hend : a + last.size = z := htiles.2
    have hsize := last.size_eq
    have h16 : sizeofBlock = 16 := rfl
    have hk : k - 1 = 0 := Nat.sub_eq_zero_of_le hk
    refine ⟨⟨?_, hlink, ?_⟩, ?_, trivial⟩
    · rw [← h.1.numElements]
      exact word_congr fun i h₁ h₂ => hm i (by omega) (by omega) (by omega)
    · rw [← h.1.data]
      exact ints_congr fun i h₁ h₂ => hm i (by omega) (by omega) (by omega)
    · rw [hk, if_pos rfl]
      exact hg
  | cons g' gs ih =>
    have hoff := htiles.1
    have hend := htiles.2.le
    have hlast := (htiles.2.mem (List.mem_append_right gs (List.mem_singleton_self last))).1
    rw [List.cons_append, List.cons_append, Linked, headOffset_concat (by simp)]
    refine ⟨h.1.congr fun i h₁ h₂ => hm i (by omega) (by omega) (by omega),
      ih htiles.2 h.2 ?_ fun i h₁ h₂ h₃ => hm i (by omega) h₂ h₃⟩
    simp only [List.cons_append, List.length_cons] at hk
    omega

/-- The first block that is not processed yet is marked as processed. -/
theorem Linked.process {m m' : Bytes} {a z k : ℕ} {gs : List Generated} {g : Generated}
    (htiles : Tiles a gs z) (h : Linked m k gs) (hg : gs[k]? = some g)
    (hm : ∀ i, a ≤ i → i < z → (i < g.offset ∨ g.offset + 8 ≤ i) → m' i = m i)
    (hzero : word m' g.offset = 0) : Linked m' (k + 1) gs := by
  induction gs generalizing a k with
  | nil => trivial
  | cons g' gs ih =>
    have hoff := htiles.1
    have hend := htiles.2.le
    have hsize := g'.size_eq
    have h16 : sizeofBlock = 16 := rfl
    cases k with
    | zero =>
      obtain rfl : g' = g := by simpa using hg
      refine ⟨⟨hzero, ?_, ?_⟩, ?_⟩
      · rw [← h.1.next]
        exact word_congr fun i h₁ h₂ => hm i (by omega) (by omega) (by omega)
      · rw [← h.1.data]
        exact ints_congr fun i h₁ h₂ => hm i (by omega) (by omega) (by omega)
      · exact h.2.congr htiles.2 fun i h₁ h₂ => hm i (by omega) h₂ (by omega)
    | succ k =>
      have hg : gs[k]? = some g := by simpa using hg
      have hlow := (htiles.2.mem (List.mem_of_getElem? hg)).1
      refine ⟨h.1.congr fun i h₁ h₂ => hm i (by omega) (by omega) (by omega), ?_⟩
      exact ih htiles.2 h.2 hg fun i h₁ h₂ h₃ => hm i (by omega) h₂ h₃

/-! ## The segment -/

/-- The segment holds a well-formed list of the blocks `gs`, the first `k` of them processed. -/
structure Represents (v : Version) (m : Bytes) (k : ℕ) (gs : List Generated) : Prop where
  limit : v = .task05 → word m 0 = shmSize
  first : word m v.firstBlockOffset = headOffset gs
  tiles : Tiles v.headerSize gs (word m v.freeOffset)
  free_le : word m v.freeOffset ≤ shmSize
  linked : Linked m k gs
  counts : ∀ g ∈ gs, 5 ≤ g.count ∧ g.count ≤ 15
  processed : k ≤ gs.length

/-- The list may change while the fields in front of `producer_done` stay. -/
theorem Represents.of_header {v : Version} {m m' : Bytes} {k k' : ℕ} {gs : List Generated}
    (h : Represents v m k gs) (hword : ∀ a, a + 8 ≤ v.producerDone → word m' a = word m a)
    (hlinked : Linked m' k' gs) (hk : k' ≤ gs.length) : Represents v m' k' gs := by
  have hfields := v.fields
  have hfree := hword v.freeOffset (by omega)
  refine ⟨fun hv => ?_, ?_, ?_, ?_, hlinked, h.counts, hk⟩
  · rw [hword 0 (by omega)]
    exact h.limit hv
  · rw [hword _ (by omega)]
    exact h.first
  · rw [hfree]
    exact h.tiles
  · rw [hfree]
    exact h.free_le

/-- `producer_done`. -/
def done (v : Version) (m : Bytes) : ℕ := leValue (bytesAt m v.producerDone 4)

end EltexPractice.SharedList
