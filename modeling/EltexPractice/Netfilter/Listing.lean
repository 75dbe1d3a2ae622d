import EltexPractice.Netfilter.Grammar

/-!
# Reading the blacklist

`blacklist_read` renders the list into a page of 4096 bytes, one line for each address, and stops
behind the line that leaves less than 32 bytes; `simple_read_from_buffer` copies from the given
position. The list does not change between the reads of one open.

* `render_spec`: the page holds whole lines, those of the addresses up to that line.
* `blacklistRead_lists`: a sequence of reads of any sizes puts these lines together, each once and
  in order.
* `performs_line`: a line that was read is the address of a command that can be written.
-/

namespace EltexPractice.Netfilter

open CString Inet

/-- A call of `blacklist_read`: the size of `buf`, and whether `kmalloc` fails in it. -/
structure ReadCall where
  count : ℕ
  kmallocFails : Bool

/-! ## One read -/

/-- The line `"%pI4\n"` of an entry. -/
def line (entry : Addr) : List UInt8 := pI4 entry ++ [10]

def lines (entries : List Addr) : List UInt8 := (entries.map line).flatten

/-- The loop over the list, with the `len` bytes of `kbuf` written so far. -/
def render (kbuf : List UInt8) : List Addr → List UInt8
  | [] => kbuf
  | entry :: rest =>
    let kbuf := kbuf ++ snprintf (4096 - kbuf.length) (line entry)
    if 4096 - 32 ≤ kbuf.length then kbuf else render kbuf rest

/-- `simple_read_from_buffer`: the bytes copied to the user, and `*ppos` afterwards. -/
def simpleReadFromBuffer (count ppos : ℕ) (kbuf : List UInt8) : List UInt8 × ℕ :=
  if kbuf.length ≤ ppos ∨ count = 0 then ([], ppos)
  else
    let copied := (kbuf.drop ppos).take count
    (copied, ppos + copied.length)

/-- The return value, the bytes in `buf`, and `*ppos` afterwards. -/
def blacklistRead (blacklist : List Addr) (c : ReadCall) (ppos : ℕ) : ℤ × List UInt8 × ℕ :=
  if c.kmallocFails then (-ENOMEM, [], ppos)
  else
    let (copied, ppos) := simpleReadFromBuffer c.count ppos (render [] blacklist)
    (copied.length, copied, ppos)

/-! ## The reads of one open -/

/-- The return values and the bytes of a sequence of reads from the position `ppos`. -/
def reads (blacklist : List Addr) (ppos : ℕ) : List ReadCall → List (ℤ × List UInt8)
  | [] => []
  | c :: calls =>
    let (ret, copied, ppos) := blacklistRead blacklist c ppos
    (ret, copied) :: reads blacklist ppos calls

/-- The bytes up to the first read that returns 0. -/
def collected (results : List (ℤ × List UInt8)) : List UInt8 :=
  ((results.takeWhile fun r => r.1 ≠ 0).map (·.2)).flatten

/-- Some read returns 0. -/
def Ends (results : List (ℤ × List UInt8)) : Prop := ∃ r ∈ results, r.1 = 0

/-- The addresses of the listing: the first ones of the list, as few as fill the page up to its
last 32 bytes, or all when that many do not exist. -/
structure Listed (blacklist shown : List Addr) : Prop where
  first : shown <+: blacklist
  enough : shown = blacklist ∨ 4096 - 32 ≤ (lines shown).length
  fewest : ∀ fewer, fewer <+: shown → fewer ≠ shown → (lines fewer).length < 4096 - 32

/-! ## The page -/

theorem length_line (entry : Addr) : 8 ≤ (line entry).length ∧ (line entry).length ≤ 16 := by
  have h := length_pI4 entry
  rw [line, List.length_append, List.length_singleton]
  omega

@[simp] theorem lines_nil : lines [] = [] := rfl

@[simp] theorem lines_cons (entry : Addr) (rest : List Addr) :
    lines (entry :: rest) = line entry ++ lines rest := rfl

/-- **The page holds whole lines**, behind what it held before. -/
theorem render_spec (blacklist : List Addr) {kbuf : List UInt8} (hlen : kbuf.length < 4096 - 32) :
    ∃ shown, shown <+: blacklist ∧ render kbuf blacklist = kbuf ++ lines shown ∧
      (shown = blacklist ∨ 4096 - 32 ≤ kbuf.length + (lines shown).length) ∧
      ∀ fewer, fewer <+: shown → fewer ≠ shown →
        kbuf.length + (lines fewer).length < 4096 - 32 := by
  induction blacklist generalizing kbuf with
  | nil =>
    refine ⟨[], List.prefix_refl _, by simp [render], Or.inl rfl, fun fewer hpre hne => ?_⟩
    exact absurd (List.prefix_nil.1 hpre) hne
  | cons entry rest ih =>
    -- the page has room for one more line
    have hfits : snprintf (4096 - kbuf.length) (line entry) = line entry :=
      snprintf_eq_self (by have := (length_line entry).2; omega)
    rw [render, hfits]
    split
    · rename_i hfull
      refine ⟨[entry], ⟨rest, rfl⟩, by simp, Or.inr ?_, fun fewer hpre hne => ?_⟩
      · simpa using hfull
      · rcases List.prefix_cons_iff.1 hpre with rfl | ⟨t, rfl, ht⟩
        · simpa using hlen
        · exact absurd (by rw [List.prefix_nil.1 ht]) hne
    · rename_i hroom
      obtain ⟨shown, hpre, hrender, henough, hfewest⟩ := ih (Nat.not_le.1 hroom)
      rw [List.length_append] at henough hfewest
      refine ⟨entry :: shown, List.prefix_cons_inj entry |>.2 hpre, ?_, ?_, fun fewer hf hne => ?_⟩
      · rw [hrender, lines_cons, List.append_assoc]
      · rw [lines_cons, List.length_append]
        exact henough.imp (congrArg _) fun h => by omega
      · rcases List.prefix_cons_iff.1 hf with rfl | ⟨t, rfl, ht⟩
        · simpa using hlen
        · have := hfewest t ht fun h => hne (by rw [h])
          rw [lines_cons, List.length_append]
          omega

/-! ## The sequence of reads -/

/-- A read that does not fail copies what is left, or a first part of it that is not empty. -/
theorem blacklistRead_spec (blacklist : List Addr) {c : ReadCall} (hcount : 0 < c.count)
    {ppos : ℕ} (hpos : ppos ≤ (render [] blacklist).length) :
    blacklistRead blacklist c ppos = (-ENOMEM, [], ppos) ∧ c.kmallocFails = true ∨
      blacklistRead blacklist c ppos = (0, [], ppos) ∧ ppos = (render [] blacklist).length ∨
      ∃ copied left, (render [] blacklist).drop ppos = copied ++ left ∧ copied ≠ [] ∧
        blacklistRead blacklist c ppos = ((copied.length : ℤ), copied, ppos + copied.length) := by
  set page := render [] blacklist with hpage
  by_cases hfail : c.kmallocFails = true
  · refine Or.inl ⟨?_, hfail⟩
    rw [blacklistRead, if_pos hfail]
  · rw [blacklistRead, if_neg hfail, ← hpage, simpleReadFromBuffer]
    by_cases hend : page.length ≤ ppos
    · refine Or.inr (Or.inl ⟨?_, by omega⟩)
      rw [if_pos (Or.inl hend)]
      rfl
    · refine Or.inr (Or.inr ⟨(page.drop ppos).take c.count, (page.drop ppos).drop c.count,
        (List.take_append_drop _ _).symm, ?_, ?_⟩)
      · rw [← List.length_pos_iff, List.length_take, List.length_drop]
        omega
      · rw [if_neg (by omega)]

/-- What a sequence of reads collects from a position on: all that is left when it ends; and it
ends when there are more reads without failure than bytes left. -/
theorem reads_spec (blacklist : List Addr) {calls : List ReadCall}
    (hcount : ∀ c ∈ calls, 0 < c.count) {ppos : ℕ} (hpos : ppos ≤ (render [] blacklist).length) :
    (Ends (reads blacklist ppos calls) →
        collected (reads blacklist ppos calls) = (render [] blacklist).drop ppos) ∧
      ((render [] blacklist).length - ppos < (calls.filter fun c => !c.kmallocFails).length →
        Ends (reads blacklist ppos calls)) := by
  induction calls generalizing ppos with
  | nil =>
    refine ⟨fun hends => ?_, fun hmany => ?_⟩
    · obtain ⟨r, hr, -⟩ := hends
      cases hr
    · cases hmany
  | cons c calls ih =>
    have ih := fun {ppos} => @ih (fun c' hc' => hcount c' (List.mem_cons_of_mem _ hc')) ppos
    have hstep := blacklistRead_spec blacklist (hcount c (by simp)) hpos
    rw [reads]
    rcases hstep with ⟨hread, hfail⟩ | ⟨hread, hend⟩ | ⟨copied, left, hsplit, hne, hread⟩
    · obtain ⟨hall, hmust⟩ := ih hpos
      rw [hread]
      refine ⟨fun hends => ?_, fun hmany => ?_⟩
      · have hends' : Ends (reads blacklist ppos calls) := by
          obtain ⟨r, hr, h0⟩ := hends
          rcases List.mem_cons.1 hr with rfl | hr
          · cases h0
          · exact ⟨r, hr, h0⟩
        rw [← hall hends', collected, List.takeWhile_cons_of_pos (by decide)]
        rfl
      · rw [List.filter_cons_of_neg (by simp [hfail])] at hmany
        obtain ⟨r, hr, h0⟩ := hmust hmany
        exact ⟨r, List.mem_cons_of_mem _ hr, h0⟩
    · rw [hread]
      refine ⟨fun _ => ?_, fun _ => ⟨(0, []), by simp, rfl⟩⟩
      rw [hend, List.drop_length, collected, List.takeWhile_cons_of_neg (by decide)]
      rfl
    · have hlen : copied.length + left.length = (render [] blacklist).length - ppos := by
        rw [← List.length_append, ← hsplit, List.length_drop]
      have hpositive := List.length_pos_iff.2 hne
      have hleft : (render [] blacklist).drop (ppos + copied.length) = left := by
        rw [← List.drop_drop, hsplit, List.drop_left]
      obtain ⟨hall, hmust⟩ := @ih (ppos + copied.length) (by omega)
      rw [hread]
      refine ⟨fun hends => ?_, fun hmany => ?_⟩
      · have hends' : Ends (reads blacklist (ppos + copied.length) calls) := by
          obtain ⟨r, hr, h0⟩ := hends
          rcases List.mem_cons.1 hr with rfl | hr
          · exact absurd h0 (by dsimp only; omega)
          · exact ⟨r, hr, h0⟩
        have htake := hall hends'
        rw [collected, hleft] at htake
        rw [collected, List.takeWhile_cons_of_pos (by simpa using hne), List.map_cons,
          List.flatten_cons, htake, hsplit]
      · have hfew : (calls.filter fun c => !c.kmallocFails).length + 1 ≥
            ((c :: calls).filter fun c => !c.kmallocFails).length := by
          rw [List.filter_cons]
          split <;> simp
        obtain ⟨r, hr, h0⟩ := hmust (by omega)
        exact ⟨r, List.mem_cons_of_mem _ hr, h0⟩

theorem listed_render (blacklist : List Addr) :
    ∃ shown, Listed blacklist shown ∧ render [] blacklist = lines shown := by
  obtain ⟨shown, hpre, hrender, henough, hfewest⟩ :=
    @render_spec blacklist [] (by decide)
  rw [List.length_nil, Nat.zero_add] at henough
  refine ⟨shown, ⟨hpre, henough, fun fewer hf hne => ?_⟩, hrender⟩
  have h := hfewest fewer hf hne
  rwa [List.length_nil, Nat.zero_add] at h

/-- **Reads of any positive sizes list the first addresses**, each once, in order, one a line; they
end after as many reads as there are bytes. -/
theorem blacklistRead_lists (blacklist : List Addr) (calls : List ReadCall)
    (hcount : ∀ c ∈ calls, 0 < c.count) :
    ∃ shown, Listed blacklist shown ∧
      (Ends (reads blacklist 0 calls) → collected (reads blacklist 0 calls) = lines shown) ∧
      ((lines shown).length < (calls.filter fun c => !c.kmallocFails).length →
        Ends (reads blacklist 0 calls)) := by
  obtain ⟨shown, hlisted, hrender⟩ := listed_render blacklist
  obtain ⟨hall, hmust⟩ := reads_spec blacklist hcount (Nat.zero_le _)
  rw [hrender] at hall hmust
  exact ⟨shown, hlisted, hall, hmust⟩

/-- A list that leaves room on the page is listed whole. -/
theorem Listed.eq_of_length_lt {blacklist shown : List Addr} (h : Listed blacklist shown)
    (hlen : (lines blacklist).length < 4096 - 32) : shown = blacklist := by
  obtain ⟨behind, rfl⟩ := h.first
  refine h.enough.resolve_right fun hfull => ?_
  rw [lines, List.map_append, List.flatten_append, List.length_append] at hlen
  exact absurd (hfull.trans (Nat.le_add_right _ _)) (Nat.not_le.2 hlen)

/-- Two addresses in pieces of seven bytes; the third read fails. -/
theorem blacklistRead_lists_two :
    let blacklist := [ofOctets [10, 0, 0, 1], ofOctets [8, 8, 8, 8]]
    let calls := ⟨7, false⟩ :: ⟨7, false⟩ :: ⟨7, true⟩ :: List.replicate 16 ⟨7, false⟩
    Ends (reads blacklist 0 calls) ∧
      collected (reads blacklist 0 calls) = ascii "10.0.0.1\n8.8.8.8\n" := by
  intro blacklist calls
  have hlines : lines blacklist = ascii "10.0.0.1\n8.8.8.8\n" := by decide
  obtain ⟨shown, hlisted, hall, hmust⟩ := blacklistRead_lists blacklist calls (by decide)
  have hlen : (ascii "10.0.0.1\n8.8.8.8\n").length = 17 := rfl
  obtain rfl : shown = blacklist := hlisted.eq_of_length_lt (by rw [hlines, hlen]; omega)
  rw [hlines] at hall hmust
  have hends := hmust (by decide)
  exact ⟨hends, hall hends⟩

/-! ## Long lists -/

/-- A listing stays below the size of the page. -/
theorem Listed.length_lt {blacklist shown : List Addr} (h : Listed blacklist shown) :
    (lines shown).length < 4096 := by
  rcases List.eq_nil_or_concat shown with rfl | ⟨front, last, rfl⟩
  · decide
  · have hfront := h.fewest front ⟨[last], by simp⟩ (by simp)
    have hlast := (length_line last).2
    simp only [lines, List.concat_eq_append, List.map_append, List.map_cons, List.map_nil,
      List.flatten_append,
      List.flatten_singleton, List.length_append] at hfront ⊢
    omega

theorem length_lines (entries : List Addr) : 8 * entries.length ≤ (lines entries).length := by
  induction entries with
  | nil => decide
  | cons entry rest ih =>
    have := (length_line entry).1
    rw [lines_cons, List.length_append, List.length_cons]
    omega

/-- The addresses with the numbers below 600. -/
def longList : List Addr := (List.range 600).map UInt32.ofNat

theorem nodup_longList : longList.Nodup := by
  refine List.Nodup.map_on (fun a ha b hb hab => ?_) List.nodup_range
  have h := congrArg UInt32.toNat hab
  rw [List.mem_range] at ha hb
  rwa [UInt32.toNat_ofNat', UInt32.toNat_ofNat', Nat.mod_eq_of_lt (by omega),
    Nat.mod_eq_of_lt (by omega)] at h

theorem length_longList : longList.length = 600 :=
  (List.length_map _).trans List.length_range

/-- Of 600 addresses some are not listed, however they are read. -/
theorem longList_spec {calls : List ReadCall} (hcount : ∀ c ∈ calls, 0 < c.count)
    (hmany : 4096 ≤ (calls.filter fun c => !c.kmallocFails).length) :
    Ends (reads longList 0 calls) ∧ collected (reads longList 0 calls) ≠ lines longList := by
  obtain ⟨shown, hlisted, hrender⟩ := listed_render longList
  obtain ⟨hall, hmust⟩ := reads_spec longList hcount (Nat.zero_le _)
  have hshort := hlisted.length_lt
  rw [hrender] at hall hmust
  have hends := hmust (by omega)
  refine ⟨hends, ?_⟩
  rw [hall hends, List.drop_zero]
  intro hsame
  have hlong := length_lines longList
  rw [← hsame, length_longList] at hlong
  omega

theorem longList_cut :
    longList.Nodup ∧ Ends (reads longList 0 (List.replicate 4096 ⟨4096, false⟩)) ∧
      collected (reads longList 0 (List.replicate 4096 ⟨4096, false⟩)) ≠ lines longList := by
  have hcount : ∀ c ∈ List.replicate 4096 (⟨4096, false⟩ : ReadCall), 0 < c.count := by
    intro c hc
    rw [List.eq_of_mem_replicate hc]
    exact Nat.succ_pos _
  have hmany : 4096 ≤
      ((List.replicate 4096 (⟨4096, false⟩ : ReadCall)).filter fun c => !c.kmallocFails).length := by
    rw [List.filter_replicate_of_pos rfl, List.length_replicate]
  exact ⟨nodup_longList, longList_spec hcount hmany⟩

/-! ## Written back -/

/-- A line behind the sign of a command denotes it. -/
theorem denotes_line (cmd : OrderedSet.Command Addr) :
    Denotes ((letter cmd).1 :: line cmd.target) cmd :=
  ⟨pI4 cmd.target, [10], rfl, dotted_pI4 cmd.target, by simp [isBlank]⟩

/-- **What was read can be written**: a line behind a sign does that command with its address. -/
theorem performs_line {in4Pton : List UInt8 → Option Addr}
    (h : ∀ s ip, in4Pton s = some ip ↔ Dotted s ip) {blacklist : List Addr} (hl : blacklist.Nodup)
    {cmd : OrderedSet.Command Addr} {c : WriteCall}
    (hbuf : c.buf = (letter cmd).1 :: line cmd.target) (hfails : ¬ c.Fails) :
    Performs in4Pton blacklist c cmd := by
  obtain ⟨hsign, haddress, hblanks⟩ := denotes_iff.1 (denotes_line cmd)
  have hshort : (addressText ((letter cmd).1 :: line cmd.target)).length ≤ 31 := by
    refine (List.takeWhile_prefix _).length_le.trans ?_
    rw [List.drop_one, List.tail_cons]
    exact (length_line cmd.target).2.trans (by decide)
  refine (performs_iff h hl).2 ⟨hfails, ?_⟩
  rw [hbuf, Reads, List.take_of_length_le hshort]
  exact ⟨hsign, haddress, Or.inr (Or.inr fun b hb => hblanks b (List.mem_of_mem_take hb))⟩

end EltexPractice.Netfilter
