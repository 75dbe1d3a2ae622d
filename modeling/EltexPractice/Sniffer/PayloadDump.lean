import EltexPractice.Sniffer.ChatLog

/-!
# The dump of a payload

What `print_payload` writes for the bytes of a payload: one character each in the first part, two
hexadecimal digits each in the second, which is broken behind every 16 bytes.

* `readHex_hexPart`: the digits are read back as the payload.
* `hexPart_eq`: where the second part is broken.
* `payload_dump`: both parts together; whatever the payload, only line feeds and printable
  characters are written.
-/

namespace EltexPractice.Sniffer

open CString

/-! ## Digits -/

/-- The value of a hexadecimal digit. -/
def hexValue (c : UInt8) : Option ℕ :=
  if 48 ≤ c ∧ c ≤ 57 then some (c.toNat - 48)
  else if 97 ≤ c ∧ c ≤ 102 then some (c.toNat - 87)
  else none

/-- The bytes of a text of two digits each. -/
def readHex : List UInt8 → Option (List UInt8)
  | [] => some []
  | [_] => none
  | a :: b :: text => do
    let high ← hexValue a
    let low ← hexValue b
    let bytes ← readHex text
    return UInt8.ofNat (16 * high + low) :: bytes

/-- A character that takes its place in a line and is seen. -/
def Printable (c : UInt8) : Prop := 32 ≤ c ∧ c ≤ 126

instance (c : UInt8) : Decidable (Printable c) := inferInstanceAs (Decidable (_ ∧ _))

/-- A line feed or a printable character. -/
def Logged (c : UInt8) : Prop := c = 10 ∨ Printable c

instance (c : UInt8) : Decidable (Logged c) := inferInstanceAs (Decidable (_ ∨ _))

theorem hexDigit_spec : ∀ n < 16, hexValue (hexDigit n) = some n ∧ isspace (hexDigit n) = false ∧
    Printable (hexDigit n) := by
  decide

theorem hexDigits_lt (b : UInt8) : b.toNat / 16 < 16 ∧ b.toNat % 16 < 16 := by
  have hb := b.toNat_lt
  omega

theorem readHex_hex2 (b : UInt8) (text : List UInt8) :
    readHex (hex2 b ++ text) = (readHex text).map (b :: ·) := by
  obtain ⟨hhigh, hlow⟩ := hexDigits_lt b
  have hvalue : UInt8.ofNat (16 * (b.toNat / 16) + b.toNat % 16) = b := by
    rw [Nat.div_add_mod, UInt8.ofNat_toNat]
  rw [hex2, List.cons_append, List.cons_append, List.nil_append, readHex,
    (hexDigit_spec _ hhigh).1, (hexDigit_spec _ hlow).1]
  cases readHex text with
  | none => rfl
  | some bytes => exact congrArg (fun c => some (c :: bytes)) hvalue

theorem readHex_digits (payload : List UInt8) : readHex (payload.flatMap hex2) = some payload := by
  induction payload with
  | nil => rfl
  | cons b payload ih => rw [List.flatMap_cons, readHex_hex2, ih, Option.map_some]

/-! ## The second part -/

/-- What is written for a byte, without the line break. -/
def hexCell (b : UInt8) : List UInt8 := hex2 b ++ ascii " "

/-- A line break, with the blanks in front of the next line. -/
def hexBreak : List UInt8 := ascii "\n         "

/-- The second loop of `print_payload` from the index `i` on. -/
def hexFrom (len : ℕ) : ℕ → List UInt8 → List UInt8
  | _, [] => []
  | i, b :: bytes =>
    hexCell b ++ (if (i + 1) % 16 = 0 ∧ i + 1 < len then hexBreak else []) ++
      hexFrom len (i + 1) bytes

/-- The part behind `HEX:`. -/
def hexPart (payload : List UInt8) : List UInt8 := hexFrom payload.length 0 payload

theorem printPayload_eq (payload : List UInt8) :
    printPayload payload = ascii "Payload (" ++ decimal payload.length ++
      ascii " bytes):\n  ASCII: " ++ payload.map shownByte ++ ascii "\n  HEX:   " ++
        hexPart payload ++ ascii "\n" := by
  have hloop : ∀ (i : ℕ) (l : List UInt8),
      ((l.zipIdx i).flatMap fun bk => hex2 bk.1 ++ ascii " " ++
        if (bk.2 + 1) % 16 = 0 ∧ bk.2 + 1 < payload.length then ascii "\n         " else []) =
      hexFrom payload.length i l := by
    intro i l
    induction l generalizing i with
    | nil => rfl
    | cons b l ih =>
      rw [List.zipIdx_cons, List.flatMap_cons, ih, hexFrom]
      rfl
  rw [hexPart, ← hloop]
  rfl

/-- Without white space the digits remain. -/
theorem filter_hexFrom (len i : ℕ) (l : List UInt8) :
    (hexFrom len i l).filter (fun c => !isspace c) = l.flatMap hex2 := by
  have hdigits : ∀ b, (hex2 b).filter (fun c => !isspace c) = hex2 b := fun b => by
    obtain ⟨hhigh, hlow⟩ := hexDigits_lt b
    simp [hex2, (hexDigit_spec _ hhigh).2.1, (hexDigit_spec _ hlow).2.1]
  have hblank : (ascii " ").filter (fun c => !isspace c) = [] := by decide
  have hbreak : hexBreak.filter (fun c => !isspace c) = [] := by decide
  induction l generalizing i with
  | nil => rfl
  | cons b l ih =>
    rw [hexFrom, hexCell, List.filter_append, List.filter_append, List.filter_append, hdigits,
      hblank, ih, List.append_nil, List.flatMap_cons]
    split
    · rw [hbreak, List.append_nil]
    · rw [List.filter_nil, List.append_nil]

/-- **The digits are read back as the payload.** -/
theorem readHex_hexPart (payload : List UInt8) :
    readHex ((hexPart payload).filter fun c => !isspace c) = some payload := by
  rw [hexPart, filter_hexFrom, readHex_digits]

/-! ## Line breaks -/

/-- A line of the second part. -/
def hexLine (bytes : List UInt8) : List UInt8 := bytes.flatMap hexCell

theorem hexFrom_append (len i : ℕ) (l l' : List UInt8) :
    hexFrom len i (l ++ l') = hexFrom len i l ++ hexFrom len (i + l.length) l' := by
  induction l generalizing i with
  | nil => rfl
  | cons b l ih =>
    rw [List.cons_append, hexFrom, hexFrom, ih, List.length_cons, Nat.add_assoc i 1,
      Nat.add_comm 1]
    simp only [List.append_assoc]

/-- No break behind the bytes before the 16th, and none behind the last byte. -/
theorem hexFrom_line {len i : ℕ} {l : List UInt8}
    (h : ∀ k < l.length, (i + k + 1) % 16 = 0 → len ≤ i + k + 1) :
    hexFrom len i l = hexLine l := by
  induction l generalizing i with
  | nil => rfl
  | cons b l ih =>
    have hnot : ¬ ((i + 1) % 16 = 0 ∧ i + 1 < len) := fun hbreak => by
      have hle := h 0 (Nat.succ_pos _) hbreak.1
      omega
    have hrest := ih (i := i + 1) fun k hk hmod => by
      have hle := h (k + 1) (Nat.succ_lt_succ hk) (by rw [← hmod]; congr 1; omega)
      omega
    rw [hexFrom, if_neg hnot, List.append_nil, hrest]
    rfl

/-- The 16th byte of a line that is not the last. -/
theorem hexFrom_full {len i : ℕ} {l : List UInt8} (hi : 16 ∣ i) (hl : l.length = 16)
    (hlen : i + 16 < len) : hexFrom len i l = hexLine l ++ hexBreak := by
  have hsplit := List.take_append_drop 15 l
  obtain ⟨b, hb⟩ : ∃ b, l.drop 15 = [b] := by
    refine List.length_eq_one_iff.1 ?_
    rw [List.length_drop, hl]
  have htake : (l.take 15).length = 15 := by rw [List.length_take, hl]; rfl
  have hfirst : hexFrom len i (l.take 15) = hexLine (l.take 15) := by
    refine hexFrom_line fun k hk hmod => ?_
    rw [htake] at hk
    omega
  have hline : hexLine l = hexLine (l.take 15) ++ hexCell b := by
    rw [← List.flatMap_singleton hexCell b, ← hb, hexLine, hexLine, ← List.flatMap_append, hsplit]
  rw [← hsplit, hexFrom_append, hfirst, hb, htake, hexFrom, if_pos (by omega), hexFrom,
    List.append_nil, ← hb, hsplit, hline, List.append_assoc]

/-- The bytes of the line `j`. -/
def row (payload : List UInt8) (j : ℕ) : List UInt8 := (payload.drop (16 * j)).take 16

theorem row_succ (payload : List UInt8) (j : ℕ) :
    row payload (j + 1) = row (payload.drop 16) j := by
  rw [row, row, List.drop_drop, Nat.mul_add, Nat.mul_one, Nat.add_comm]

theorem hexFrom_eq {len i : ℕ} {l : List UInt8} (hi : 16 ∣ i) (hlen : i + l.length = len) :
    hexFrom len i l =
      hexBreak.intercalate
        ((List.range ((l.length + 15) / 16)).map fun j => hexLine (row l j)) := by
  obtain ⟨n, hn⟩ : ∃ n, l.length = n := ⟨_, rfl⟩
  induction n using Nat.strong_induction_on generalizing l i with
  | _ n ih =>
    rcases Nat.eq_zero_or_pos n with rfl | hpos
    · obtain rfl := List.length_eq_zero_iff.1 hn
      rfl
    rcases Nat.lt_or_ge 16 n with hlong | hshort
    · -- a full line, and the rest
      have htake : (l.take 16).length = 16 := by rw [List.length_take]; omega
      have hdrop : (l.drop 16).length = n - 16 := by rw [List.length_drop, hn]
      have hrest := ih (n - 16) (by omega) (i := i + 16) (l := l.drop 16)
        (Nat.dvd_add hi (Nat.dvd_refl 16)) (by omega) hdrop
      have hcount : (l.length + 15) / 16 = ((l.drop 16).length + 15) / 16 + 1 := by omega
      have hne : ((List.range (((l.drop 16).length + 15) / 16)).map fun j =>
          hexLine (row (l.drop 16) j)) ≠ [] := by
        refine List.ne_nil_of_length_pos ?_
        rw [List.length_map, List.length_range]
        omega
      conv_lhs => rw [← List.take_append_drop 16 l]
      rw [hexFrom_append, htake, hexFrom_full hi htake (by omega), hrest, hcount,
        List.range_succ_eq_map, List.map_cons, List.map_map]
      have hrows : ((fun j => hexLine (row l j)) ∘ Nat.succ) =
          fun j => hexLine (row (l.drop 16) j) := funext fun j => congrArg hexLine (row_succ l j)
      have hfirst : row l 0 = l.take 16 := rfl
      rw [hrows, List.intercalate_cons_of_ne_nil hne, hfirst]
    · -- the last line
      have hcount : (l.length + 15) / 16 = 1 := by omega
      have hrow : row l 0 = l := List.take_of_length_le (by
        rw [Nat.mul_zero, List.drop_zero]
        omega)
      rw [hcount, List.range_one, List.map_singleton, List.intercalate_singleton, hrow]
      refine hexFrom_line fun k hk hmod => ?_
      omega

/-- **Lines of 16 bytes**, with a break between two of them and none at the end. -/
theorem hexPart_eq (payload : List UInt8) :
    hexPart payload = hexBreak.intercalate
      ((List.range ((payload.length + 15) / 16)).map fun j => hexLine (row payload j)) :=
  hexFrom_eq (Nat.dvd_zero 16) (Nat.zero_add _)

/-! ## What reaches the log -/

/-- The character shown for a byte is printable, and is the byte if the byte is. -/
theorem shownByte_spec (b : UInt8) :
    Printable (shownByte b) ∧ (Printable b → shownByte b = b) := by
  rw [shownByte]
  split
  · rename_i hb
    exact ⟨hb, fun _ => rfl⟩
  · rename_i hb
    refine ⟨?_, fun h => absurd h hb⟩
    split <;> decide

/-- The characters of a literal, checked one by one. -/
theorem logged_of_all {text : List UInt8} (h : text.all (fun c => Logged c) = true) :
    ∀ c ∈ text, Logged c := fun c hc => of_decide_eq_true (List.all_eq_true.1 h c hc)

theorem logged_append {s t : List UInt8} (hs : ∀ c ∈ s, Logged c) (ht : ∀ c ∈ t, Logged c) :
    ∀ c ∈ s ++ t, Logged c := fun c hc => (List.mem_append.1 hc).elim (hs c) (ht c)

theorem logged_hexCell (b : UInt8) : ∀ c ∈ hexCell b, Logged c := by
  obtain ⟨hhigh, hlow⟩ := hexDigits_lt b
  refine logged_append (fun c hc => Or.inr ?_) (logged_of_all (by decide))
  rcases List.mem_cons.1 hc with rfl | hc
  · exact (hexDigit_spec _ hhigh).2.2
  · rw [List.mem_singleton.1 hc]
    exact (hexDigit_spec _ hlow).2.2

theorem logged_hexFrom (len i : ℕ) (l : List UInt8) : ∀ c ∈ hexFrom len i l, Logged c := by
  induction l generalizing i with
  | nil => exact fun c hc => absurd hc List.not_mem_nil
  | cons b l ih =>
    rw [hexFrom]
    refine logged_append (logged_append (logged_hexCell b) ?_) (ih (i + 1))
    split
    · exact logged_of_all (by decide)
    · exact fun c hc => absurd hc List.not_mem_nil

theorem logged_decimal (n : ℕ) : ∀ c ∈ decimal n, Logged c := by
  intro c hc
  rcases mem_decimal hc with rfl | hdigit
  · decide
  · have hrange := isdigit_range hdigit
    refine Or.inr ⟨UInt8.le_iff_toNat_le.2 ?_, UInt8.le_iff_toNat_le.2 ?_⟩
    · exact Nat.le_trans (by decide) hrange.1
    · exact Nat.le_trans hrange.2 (by decide)

/-- Whatever the payload, nothing but line feeds and printable characters is written. -/
theorem logged_printPayload (payload : List UInt8) : ∀ c ∈ printPayload payload, Logged c := by
  have hshown : ∀ c ∈ payload.map shownByte, Logged c := fun c hc => by
    obtain ⟨b, -, rfl⟩ := List.mem_map.1 hc
    exact Or.inr (shownByte_spec b).1
  rw [printPayload_eq]
  refine logged_append (logged_append (logged_append (logged_append (logged_append
    (logged_append ?_ (logged_decimal _)) ?_) hshown) ?_) (logged_hexFrom _ _ _)) ?_
  all_goals exact logged_of_all (by decide)

/-- **The dump is lossless and safe.** The first part has one printable character for each byte, the
byte itself where it is printable; the second part is read back as the payload and is broken behind
every 16 bytes but the last; and all that is written are line feeds and printable characters. -/
theorem payload_dump (payload : List UInt8) :
    ∃ shown hex,
      printPayload payload = ascii "Payload (" ++ decimal payload.length ++
        ascii " bytes):\n  ASCII: " ++ shown ++ ascii "\n  HEX:   " ++ hex ++ ascii "\n" ∧
      shown.length = payload.length ∧
      (∀ (i : ℕ) (b c : UInt8), payload[i]? = some b → shown[i]? = some c →
        Printable c ∧ (Printable b → c = b)) ∧
      readHex (hex.filter fun c => !isspace c) = some payload ∧
      hex = hexBreak.intercalate
        ((List.range ((payload.length + 15) / 16)).map fun j => hexLine (row payload j)) ∧
      ∀ c ∈ printPayload payload, Logged c := by
  refine ⟨payload.map shownByte, hexPart payload, printPayload_eq payload, List.length_map ..,
    fun i b c hb hc => ?_, readHex_hexPart payload, hexPart_eq payload, logged_printPayload payload⟩
  rw [List.getElem?_map, hb] at hc
  obtain rfl := Option.some.inj hc
  exact shownByte_spec b

end EltexPractice.Sniffer
