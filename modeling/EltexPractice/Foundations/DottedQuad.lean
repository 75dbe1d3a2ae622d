import EltexPractice.Foundations.CString

/-!
# Dotted addresses

The text of an IPv4 address: four decimal numbers of at most 255 with dots between them. An address
is the 32-bit value the host reads from its four bytes in memory, which lie in network order.

* `Dotted`: the texts, with any number of leading zeros, and the address each denotes.
* `dottedQuad`: the parser of these texts, `dottedQuad_eq_some`: it accepts exactly these.
* `pI4`: the text `%pI4` prints, one of the texts of its address.
-/

namespace EltexPractice.Inet

open CString

/-- The text of one octet. -/
def Octet (ds : List UInt8) : Prop :=
  ds ≠ [] ∧ (∀ b ∈ ds, isdigit b = true) ∧ digitsVal ds ≤ 255

instance (ds : List UInt8) : Decidable (Octet ds) :=
  decidable_of_iff (ds ≠ [] ∧ ds.all isdigit = true ∧ digitsVal ds ≤ 255)
    (by rw [Octet, List.all_eq_true])

/-- The address of four octets. -/
def ofOctets (os : List ℕ) : UInt32 := UInt32.ofNat (leValue (os.map UInt8.ofNat))

/-- The bytes of an address in memory. -/
def octets (ip : UInt32) : List ℕ := (leBytes 4 ip.toNat).map (·.toNat)

/-- The text `s` denotes the address `ip`. -/
def Dotted (s : List UInt8) (ip : UInt32) : Prop :=
  ∃ ds : List (List UInt8), ds.length = 4 ∧ (∀ d ∈ ds, Octet d) ∧
    s = [46].intercalate ds ∧ ip = ofOctets (ds.map digitsVal)

/-- The address a text denotes. -/
def dottedQuad (s : List UInt8) : Option UInt32 :=
  let ds := s.splitOn 46
  if ds.length = 4 ∧ ∀ d ∈ ds, Octet d then some (ofOctets (ds.map digitsVal)) else none

/-- The text of `printk("%pI4", &ip)`. -/
def pI4 (ip : UInt32) : List UInt8 := [46].intercalate ((octets ip).map fun o : ℕ => decimal o)

/-! ## The texts -/

theorem Octet.no_dot {ds : List UInt8} (h : Octet ds) : 46 ∉ ds := fun h46 =>
  absurd (h.2.1 46 h46) (by decide)

/-- **The parser accepts exactly the dotted texts.** -/
theorem dottedQuad_eq_some {s : List UInt8} {ip : UInt32} :
    dottedQuad s = some ip ↔ Dotted s ip := by
  constructor
  · intro h
    rw [dottedQuad] at h
    split at h
    · rename_i hds
      exact ⟨s.splitOn 46, hds.1, hds.2, (List.intercalate_splitOn 46).symm,
        (Option.some.inj h).symm⟩
    · cases h
  · rintro ⟨ds, hlen, hds, rfl, rfl⟩
    have hne : ds ≠ [] := by
      rintro rfl
      cases hlen
    have hsplit : ([46].intercalate ds).splitOn 46 = ds :=
      List.splitOn_intercalate 46 (fun d hd => (hds d hd).no_dot) hne
    rw [dottedQuad, hsplit, if_pos ⟨hlen, hds⟩]

/-- A text denotes one address. -/
theorem Dotted.unique {s : List UInt8} {ip ip' : UInt32} (h : Dotted s ip) (h' : Dotted s ip') :
    ip = ip' :=
  Option.some.inj ((dottedQuad_eq_some.2 h).symm.trans (dottedQuad_eq_some.2 h'))

/-- A byte of a dotted text. -/
def isAddressByte (b : UInt8) : Bool := isdigit b || b == 46

theorem mem_intercalate {ds : List (List UInt8)} {b : UInt8} (h : b ∈ [46].intercalate ds) :
    b = 46 ∨ ∃ d ∈ ds, b ∈ d := by
  induction ds with
  | nil => cases h
  | cons d rest ih =>
    rcases rest with - | ⟨e, rest⟩
    · exact Or.inr ⟨d, by simp, by simpa using h⟩
    · rw [List.intercalate_cons_cons] at h
      rcases List.mem_append.1 h with h | h
      · rcases List.mem_append.1 h with h | h
        · exact Or.inr ⟨d, by simp, h⟩
        · exact Or.inl (by simpa using h)
      · rcases ih h with h | ⟨d', hd', hb⟩
        · exact Or.inl h
        · exact Or.inr ⟨d', List.mem_cons_of_mem _ hd', hb⟩

theorem Dotted.isAddressByte {s : List UInt8} {ip : UInt32} (h : Dotted s ip) :
    ∀ b ∈ s, isAddressByte b = true := by
  obtain ⟨ds, -, hds, rfl, -⟩ := h
  intro b hb
  rcases mem_intercalate hb with rfl | ⟨d, hd, hbd⟩
  · rfl
  · simp [Inet.isAddressByte, (hds d hd).2.1 b hbd]

theorem Dotted.ne_nil {s : List UInt8} {ip : UInt32} (h : Dotted s ip) : s ≠ [] := by
  rintro rfl
  have hnone : dottedQuad [] = none := rfl
  rw [dottedQuad_eq_some.2 h] at hnone
  cases hnone

/-! ## Printing -/

theorem length_octets (ip : UInt32) : (octets ip).length = 4 := by simp [octets]

theorem octets_lt {ip : UInt32} {o : ℕ} (h : o ∈ octets ip) : o < 256 := by
  obtain ⟨b, -, rfl⟩ := List.mem_map.1 h
  exact b.toNat_lt

/-- The octets of an address are its bytes. -/
theorem ofOctets_octets (ip : UInt32) : ofOctets (octets ip) = ip := by
  have hbytes : ((leBytes 4 ip.toNat).map (·.toNat)).map UInt8.ofNat = leBytes 4 ip.toNat := by
    rw [List.map_map]
    exact (List.map_congr_left fun b _ => UInt8.ofNat_toNat).trans (List.map_id _)
  have hlt : ip.toNat < 256 ^ 4 := ip.toNat_lt
  rw [ofOctets, octets, hbytes, leValue_leBytes_of_lt hlt, UInt32.ofNat_toNat]

/-- `%d` of a natural number. -/
theorem decimal_nat (n : ℕ) :
    decimal n = (Nat.toDigits 10 n).map fun c => UInt8.ofNat c.toNat := by
  rw [decimal, if_neg (by omega), Int.natAbs_natCast]

theorem octet_decimal {o : ℕ} (h : o < 256) : Octet (decimal o) ∧ digitsVal (decimal o) = o := by
  have hspec := digits_spec o
  rw [← decimal_nat] at hspec
  exact ⟨⟨hspec.1, hspec.2.1, by omega⟩, hspec.2.2⟩

/-- **The printed text denotes the address.** -/
theorem dotted_pI4 (ip : UInt32) : Dotted (pI4 ip) ip := by
  refine ⟨(octets ip).map fun o : ℕ => decimal o, by simp [length_octets], ?_, rfl, ?_⟩
  · intro d hd
    obtain ⟨o, ho, rfl⟩ := List.mem_map.1 hd
    exact (octet_decimal (octets_lt ho)).1
  · have hvalues : ((octets ip).map fun o : ℕ => decimal o).map digitsVal = octets ip := by
      rw [List.map_map]
      exact (List.map_congr_left fun o ho => (octet_decimal (octets_lt ho)).2).trans
        (List.map_id _)
    rw [hvalues, ofOctets_octets]

theorem length_decimal_octet {o : ℕ} (h : o < 256) :
    1 ≤ (decimal o).length ∧ (decimal o).length ≤ 3 := by
  have hlen : (Nat.toDigits 10 o).length ≤ 3 :=
    (Nat.length_toDigits_le_iff (by decide) (by decide)).2 (by omega)
  refine ⟨List.length_pos_iff.2 (octet_decimal h).1.1, ?_⟩
  rw [decimal_nat, List.length_map]
  exact hlen

/-- An address is printed in 7 to 15 bytes. -/
theorem length_pI4 (ip : UInt32) : 7 ≤ (pI4 ip).length ∧ (pI4 ip).length ≤ 15 := by
  have hlt := fun o => @octets_lt ip o
  rw [pI4]
  obtain ⟨a, b, c, d, h⟩ : ∃ a b c d, octets ip = [a, b, c, d] := ⟨_, _, _, _, rfl⟩
  rw [h] at hlt ⊢
  have ha := length_decimal_octet (hlt a (by simp))
  have hb := length_decimal_octet (hlt b (by simp))
  have hc := length_decimal_octet (hlt c (by simp))
  have hd := length_decimal_octet (hlt d (by simp))
  simp only [List.map_cons, List.map_nil, List.intercalate_cons_cons, List.intercalate_singleton,
    List.length_append, List.length_singleton]
  omega

end EltexPractice.Inet
