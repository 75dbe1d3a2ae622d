import EltexPractice.Foundations.DottedQuad
import EltexPractice.Netfilter.Blacklist

/-!
# The commands of the blacklist

A text denotes a command when it is `+` or `-`, a dotted address, and then blanks and line ends
only. `blacklist_write` does not look at the whole text: it takes the first 63 bytes, drops the
blanks and line ends at their end, and hands at most 31 bytes up to the first NUL to `in4_pton`.

* `Reads`: the command that the code finds in a text (`performs_iff`).
* `Misread`: the three kinds of texts in which that is not the command the text denotes.
* `followsGrammar_iff`: the code follows the grammar exactly on the other texts.
-/

namespace EltexPractice.Netfilter

open CString Inet
open OrderedSet (Command)

/-- What `blacklist_write` drops at the end of a text. -/
def isBlank (b : UInt8) : Bool := b == 10 || b == 13 || b == 32

/-- The text denotes the command. -/
def Denotes (text : List UInt8) (cmd : Command Addr) : Prop :=
  ∃ s blanks, text = (letter cmd).1 :: s ++ blanks ∧ Dotted s cmd.target ∧
    ∀ b ∈ blanks, isBlank b = true

/-- The call does what the grammar says of its text, whatever is on the list. -/
def FollowsGrammar (in4Pton : List UInt8 → Option Addr) (c : WriteCall) : Prop :=
  ∀ blacklist : List Addr, blacklist.Nodup →
    (∀ cmd, Denotes c.buf cmd → Performs in4Pton blacklist c cmd) ∧
      ((∀ cmd, ¬ Denotes c.buf cmd) → Refuses in4Pton blacklist c)

/-- The digits and dots behind the sign. -/
def addressText (text : List UInt8) : List UInt8 := (text.drop 1).takeWhile isAddressByte

/-- What follows them. -/
def behind (text : List UInt8) : List UInt8 := (text.drop 1).dropWhile isAddressByte

/-- `copy_from_user` fails, or `kmalloc` does for an address to add. -/
def WriteCall.Fails (c : WriteCall) : Prop :=
  c.copyFails = true ∨ c.kmallocFails = true ∧ c.buf.head? = some 43

instance (c : WriteCall) : Decidable c.Fails := inferInstanceAs (Decidable (_ ∨ _))

/-- Nothing of what follows the address reaches `in4_pton`: the address fills `ip_str`, or a NUL
follows it, or only blanks up to the end of `kbuf`. -/
def Hidden (text : List UInt8) : Prop :=
  31 ≤ (addressText text).length ∨ (behind text).head? = some 0 ∨
    ∀ b ∈ (behind text).take (62 - (addressText text).length), isBlank b = true

/-- The texts on which the code and the grammar disagree. -/
inductive Misread (text : List UInt8) : Prop
  /-- An address that fits, and behind it something else that the code does not see. -/
  | junk (cmd : Command Addr) (sign : text.head? = some (letter cmd).1)
      (fits : (addressText text).length ≤ 31) (address : Dotted (addressText text) cmd.target)
      (hidden : Hidden text) (junk : ∃ b ∈ behind text, isBlank b = false)
  /-- The first 31 of the digits and dots are an address, but not the one of the text. -/
  | cut (cmd : Command Addr) (sign : text.head? = some (letter cmd).1)
      (long : 31 < (addressText text).length)
      (address : Dotted ((addressText text).take 31) cmd.target)
      (other : ¬ (Dotted (addressText text) cmd.target ∧ ∀ b ∈ behind text, isBlank b = true))
  /-- An address of which the first 31 bytes are not one. -/
  | lost (cmd : Command Addr) (sign : text.head? = some (letter cmd).1)
      (long : 31 < (addressText text).length) (address : Dotted (addressText text) cmd.target)
      (blanks : ∀ b ∈ behind text, isBlank b = true)
      (unread : ¬ Dotted ((addressText text).take 31) cmd.target)

/-! ## What the text denotes -/

theorem not_isBlank {b : UInt8} (h : isAddressByte b = true) : isBlank b = false := by
  have h : (48 ≤ b.toNat ∧ b.toNat ≤ 57) ∨ b.toNat = 46 := by
    simpa [isAddressByte, isdigit, UInt8.le_iff_toNat_le, ← UInt8.toNat_inj] using h
  simp only [isBlank, Bool.or_eq_false_iff, beq_eq_false_iff_ne, ne_eq, ← UInt8.toNat_inj]
  refine ⟨⟨?_, ?_⟩, ?_⟩ <;> simp <;> omega

theorem not_zero {b : UInt8} (h : isAddressByte b = true) : b ≠ 0 := by
  rintro rfl
  cases h

theorem isAddressByte_addressText {text : List UInt8} {b : UInt8} (h : b ∈ addressText text) :
    isAddressByte b = true := List.mem_takeWhile_imp h

theorem addressText_append_behind (text : List UInt8) :
    addressText text ++ behind text = text.drop 1 := List.takeWhile_append_dropWhile

/-- What follows the address does not start with a digit or a dot. -/
theorem head_behind {text : List UInt8} {b : UInt8} (h : (behind text).head? = some b) :
    isAddressByte b = false := by
  have hhead := List.head?_dropWhile_not isAddressByte (text.drop 1)
  rw [behind] at h
  rw [h] at hhead
  exact hhead

/-- **The command a text denotes**, read off its parts. -/
theorem denotes_iff {text : List UInt8} {cmd : Command Addr} :
    Denotes text cmd ↔ text.head? = some (letter cmd).1 ∧ Dotted (addressText text) cmd.target ∧
      ∀ b ∈ behind text, isBlank b = true := by
  constructor
  · rintro ⟨s, blanks, rfl, hs, hblanks⟩
    have hstop : blanks.takeWhile isAddressByte = [] := by
      rcases blanks with - | ⟨b, blanks⟩
      · rfl
      · refine List.takeWhile_cons_of_neg fun hb => ?_
        have := hblanks b (by simp)
        rw [not_isBlank hb] at this
        cases this
    have haddress : addressText ((letter cmd).1 :: s ++ blanks) = s := by
      rw [addressText, List.cons_append, List.drop_one, List.tail_cons,
        List.takeWhile_append_of_pos hs.isAddressByte, hstop, List.append_nil]
    have hbehind : behind ((letter cmd).1 :: s ++ blanks) = blanks := by
      have h := addressText_append_behind ((letter cmd).1 :: s ++ blanks)
      rw [haddress, List.cons_append, List.drop_one, List.tail_cons] at h
      exact List.append_cancel_left h
    rw [haddress, hbehind]
    exact ⟨rfl, hs, hblanks⟩
  · rintro ⟨hsign, hs, hblanks⟩
    refine ⟨addressText text, behind text, ?_, hs, hblanks⟩
    rw [List.cons_append, addressText_append_behind]
    rcases text with - | ⟨a, rest⟩
    · cases hsign
    · obtain rfl := Option.some.inj hsign
      rfl

/-! ## What the code reads -/

/-- The command the code finds in the text. -/
def Reads (text : List UInt8) (cmd : Command Addr) : Prop :=
  text.head? = some (letter cmd).1 ∧ Dotted ((addressText text).take 31) cmd.target ∧ Hidden text

theorem trimEnd_eq_nil {s : List UInt8} : trimEnd s = [] ↔ ∀ b ∈ s, isBlank b = true :=
  List.rdropWhile_eq_nil_iff

/-- Trimming stops at the last byte that is not blank. -/
theorem trimEnd_append {x z : List UInt8} (hx : ∀ b ∈ x, isBlank b = false) :
    trimEnd (x ++ z) = x ++ trimEnd z := by
  have hself : x.reverse.dropWhile isBlank = x.reverse := by
    rw [List.dropWhile_eq_self_iff]
    intro hpos hb
    rw [hx _ (List.mem_reverse.1 (List.getElem_mem hpos))] at hb
    cases hb
  change (x ++ z).rdropWhile isBlank = x ++ z.rdropWhile isBlank
  rw [List.rdropWhile, List.rdropWhile, List.reverse_append, List.dropWhile_append]
  split
  · rename_i hnil
    rw [List.isEmpty_iff.1 hnil, hself, List.reverse_reverse, List.reverse_nil, List.append_nil]
  · rw [List.reverse_append, List.reverse_reverse]

theorem head?_of_isPrefix {s t : List UInt8} (h : s <+: t) (hne : s ≠ []) : s.head? = t.head? := by
  obtain ⟨u, rfl⟩ := h
  obtain ⟨b, r, rfl⟩ := List.exists_cons_of_ne_nil hne
  rfl

theorem prefix_trimEnd (s : List UInt8) : trimEnd s <+: s := List.rdropWhile_prefix _ _

/-- Nothing is left of the bytes behind the address. -/
theorem cstr_trimEnd_eq_nil {z : List UInt8} :
    cstr (trimEnd z) = [] ↔ z.head? = some 0 ∨ ∀ b ∈ z, isBlank b = true := by
  by_cases hnil : trimEnd z = []
  · rw [hnil]
    exact iff_of_true rfl (Or.inr (trimEnd_eq_nil.1 hnil))
  · have hblank : ¬ ∀ b ∈ z, isBlank b = true := fun h => hnil (trimEnd_eq_nil.2 h)
    rw [← head?_of_isPrefix (prefix_trimEnd z) hnil]
    obtain ⟨b, r, hb⟩ := List.exists_cons_of_ne_nil hnil
    rw [hb, cstr, List.takeWhile_eq_nil_iff]
    simp [hblank]

/-- What `in4_pton` gets when the text behind the sign is `rest`. -/
def ipText (rest : List UInt8) : List UInt8 := (cstr (trimEnd (rest.take 62))).take 31

/-- The digits and dots stay, and what is read of the bytes behind them. -/
theorem ipText_append {s tail : List UInt8} (hs : ∀ b ∈ s, isAddressByte b = true) :
    ipText (s ++ tail) =
      s.take 31 ++ (cstr (trimEnd (tail.take (62 - s.length)))).take (31 - s.length) := by
  have hblank : ∀ b ∈ s.take 62, isBlank b = false := fun b hb =>
    not_isBlank (hs b (List.mem_of_mem_take hb))
  have hzero : (0 : UInt8) ∉ s.take 62 := fun h => not_zero (hs 0 (List.mem_of_mem_take h)) rfl
  rw [ipText, List.take_append, trimEnd_append hblank, cstr_append_of_notMem hzero,
    List.take_append, List.take_take, List.length_take]
  by_cases hlen : s.length ≤ 62
  · rw [Nat.min_eq_right hlen, Nat.min_eq_left (by decide)]
  · rw [Nat.min_eq_left (show 31 ≤ 62 by decide),
      show 31 - min 62 s.length = 31 - s.length by omega]

/-- **What `in4_pton` accepts**: the first 31 digits and dots, if nothing else reaches it. -/
theorem dotted_ipText {text : List UInt8} {ip : Addr} :
    Dotted (ipText (text.drop 1)) ip ↔ Dotted ((addressText text).take 31) ip ∧ Hidden text := by
  have htext : ipText (text.drop 1) = (addressText text).take 31 ++
      (cstr (trimEnd ((behind text).take (62 - (addressText text).length)))).take
        (31 - (addressText text).length) := by
    rw [← addressText_append_behind text]
    exact ipText_append fun b hb => isAddressByte_addressText hb
  rw [htext, Hidden]
  by_cases hlong : 31 ≤ (addressText text).length
  · rw [show 31 - (addressText text).length = 0 by omega, List.take_zero, List.append_nil]
    simp [hlong]
  · set z := (behind text).take (62 - (addressText text).length) with hz
    have hhead : z.head? = (behind text).head? := by
      rw [hz, List.head?_take, if_neg (by omega)]
    have hnil := @cstr_trimEnd_eq_nil z
    rw [hhead] at hnil
    simp only [hlong, false_or]
    rw [← hnil]
    constructor
    · intro h
      -- a byte behind the address that reaches `in4_pton` is not of an address
      have hempty : cstr (trimEnd z) = [] := by
        by_contra hne
        have hpre : cstr (trimEnd z) <+: z := (List.takeWhile_prefix _).trans (prefix_trimEnd z)
        have hfirst := (head?_of_isPrefix hpre hne).trans hhead
        obtain ⟨b, r, hb⟩ := List.exists_cons_of_ne_nil hne
        have hmem : b ∈ (cstr (trimEnd z)).take (31 - (addressText text).length) := by
          rw [hb, show 31 - (addressText text).length =
            (30 - (addressText text).length) + 1 by omega, List.take_succ_cons]
          exact List.mem_cons_self
        have hbyte := h.isAddressByte b (List.mem_append_right _ hmem)
        rw [hb] at hfirst
        rw [head_behind hfirst.symm] at hbyte
        cases hbyte
      rw [hempty, List.take_nil, List.append_nil] at h
      exact ⟨h, hempty⟩
    · rintro ⟨h, hempty⟩
      rw [hempty, List.take_nil, List.append_nil]
      exact h

/-! ## The call -/

theorem kbuf_cons (a : UInt8) (rest : List UInt8) (copyFails kmallocFails : Bool) :
    (⟨a :: rest, copyFails, kmallocFails⟩ : WriteCall).kbuf = trimEnd (a :: rest.take 62) := by
  have hmin : (a :: rest).take (min (a :: rest).length 63) = (a :: rest).take 63 := by
    rw [List.take_eq_take_iff]
    omega
  rw [WriteCall.kbuf, hmin, List.take_succ_cons]

/-- `kbuf` when something is left behind its first byte, and when nothing is. -/
theorem trimEnd_cons (a : UInt8) (z : List UInt8) :
    (trimEnd z ≠ [] ∧ trimEnd (a :: z) = a :: trimEnd z) ∨
      (trimEnd z = [] ∧ (trimEnd (a :: z)).length ≤ 1) := by
  change (z.rdropWhile isBlank ≠ [] ∧ (a :: z).rdropWhile isBlank = a :: z.rdropWhile isBlank) ∨
    (z.rdropWhile isBlank = [] ∧ ((a :: z).rdropWhile isBlank).length ≤ 1)
  by_cases h : z.rdropWhile isBlank = []
  · refine Or.inr ⟨h, ?_⟩
    have hz : (z.reverse.dropWhile isBlank).isEmpty = true := by
      rw [List.isEmpty_iff, ← List.reverse_eq_nil_iff]
      exact h
    rw [List.rdropWhile, List.reverse_cons, List.dropWhile_append, if_pos hz, List.length_reverse]
    exact (List.dropWhile_sublist _).length_le
  · refine Or.inl ⟨h, ?_⟩
    have hz : ¬ (z.reverse.dropWhile isBlank).isEmpty = true := by
      rw [List.isEmpty_iff, ← List.reverse_eq_nil_iff]
      exact h
    rw [List.rdropWhile, List.reverse_cons, List.dropWhile_append, if_neg hz, List.reverse_append]
    rfl

/-- What the call finds in its text. -/
theorem reads_iff {c : WriteCall} {cmd : Command Addr} :
    2 ≤ c.kbuf.length ∧ Dotted c.ipStr cmd.target ∧ c.action = (letter cmd).1 ↔
      Reads c.buf cmd := by
  obtain ⟨text, copyFails, kmallocFails⟩ := c
  rcases text with - | ⟨a, rest⟩
  · refine iff_of_false (fun h => ?_) fun h => ?_
    · cases h.1
    · cases h.1
  have hreads := @dotted_ipText (a :: rest) cmd.target
  rw [List.drop_one, List.tail_cons] at hreads
  rw [Reads, ← hreads, WriteCall.ipStr, WriteCall.action, kbuf_cons, strscpy, List.head?_cons,
    Option.some.injEq]
  rcases trimEnd_cons a (rest.take 62) with ⟨hne, hcons⟩ | ⟨hnil, hlen⟩
  · have hlen : 2 ≤ (a :: trimEnd (rest.take 62)).length := by
      rw [List.length_cons]
      have := List.length_pos_iff.2 hne
      omega
    rw [hcons, List.drop_one, List.tail_cons, List.headD_cons]
    exact ⟨fun h => ⟨h.2.2, h.2.1⟩, fun h => ⟨hlen, h.2, h.1⟩⟩
  · refine iff_of_false (fun h => ?_) fun h => ?_
    · omega
    · have hempty : ipText rest = [] := by rw [ipText, hnil]; rfl
      exact h.2.ne_nil hempty

variable {in4Pton : List UInt8 → Option Addr}

/-- The calls that return no error. -/
theorem accepts_iff {blacklist : List Addr} {c : WriteCall} :
    0 ≤ (blacklistWrite in4Pton blacklist c).1 ↔
      c.copyFails = false ∧ 2 ≤ c.kbuf.length ∧ (∃ ip, in4Pton c.ipStr = some ip) ∧
        (c.action = 43 ∧ c.kmallocFails = false ∨ c.action = 45) := by
  rw [blacklistWrite]
  by_cases hcopy : c.copyFails = true
  · simp [hcopy, EFAULT]
  by_cases hlen : c.kbuf.length < 2
  · simp [hcopy, hlen, EINVAL, Nat.not_le.2 hlen]
  rcases hip : in4Pton c.ipStr with - | ip
  · simp [hcopy, hlen, EINVAL]
  by_cases hadd : c.action = 43
  · by_cases hmem : c.kmallocFails = true
    · simp [hcopy, hlen, hadd, hmem, ENOMEM]
    · by_cases hold : ip ∈ blacklist <;> simp [hcopy, hlen, hadd, hmem, hold, Nat.not_lt.1 hlen]
  · by_cases hdel : c.action = 45
    · simp [hcopy, hlen, hdel, Nat.not_lt.1 hlen]
    · simp [hcopy, hlen, hadd, hdel, EINVAL]

theorem command_ext {cmd cmd' : Command Addr} (hsign : (letter cmd).1 = (letter cmd').1)
    (htarget : cmd.target = cmd'.target) : cmd = cmd' := by
  cases cmd <;> cases cmd' <;> simp_all [letter, Command.target]

/-- **A call carries out the command that the code finds in its text**, unless it fails. -/
theorem performs_iff (h : ∀ s ip, in4Pton s = some ip ↔ Dotted s ip) {blacklist : List Addr}
    (hl : blacklist.Nodup) {c : WriteCall} {cmd : Command Addr} :
    Performs in4Pton blacklist c cmd ↔ ¬ c.Fails ∧ Reads c.buf cmd := by
  constructor
  · rintro ⟨hpos, haccepted, hip, -⟩
    have hletter : c.action = (letter cmd).1 := by
      rw [acceptedCommand, if_pos hpos, hip, Option.map_some, Option.some.injEq] at haccepted
      rw [← haccepted]
    obtain ⟨hcopy, hlen, -, haction⟩ := accepts_iff.1 hpos
    have hreads := reads_iff.1 ⟨hlen, (h _ _).1 hip, hletter⟩
    refine ⟨?_, hreads⟩
    rintro (hfail | ⟨hfail, hsign⟩)
    · rw [hcopy] at hfail
      cases hfail
    · rw [hreads.1, ← hletter, Option.some.injEq] at hsign
      rcases haction with ⟨-, hmem⟩ | hdel
      · rw [hmem] at hfail
        cases hfail
      · rw [hdel] at hsign
        cases hsign
  · rintro ⟨hfails, hreads⟩
    obtain ⟨hlen, hdotted, haction⟩ := reads_iff.2 hreads
    have hip := (h _ _).2 hdotted
    rw [WriteCall.Fails, not_or, not_and, Bool.not_eq_true] at hfails
    have hpos : 0 ≤ (blacklistWrite in4Pton blacklist c).1 := by
      refine accepts_iff.2 ⟨hfails.1, hlen, ⟨_, hip⟩, ?_⟩
      cases cmd with
      | add ip => exact Or.inl ⟨haction, Bool.eq_false_iff.2 fun hmem => hfails.2 hmem hreads.1⟩
      | remove ip => exact Or.inr haction
    rcases @blacklistWrite_spec in4Pton _ hl c with ⟨hneg, -⟩ | ⟨cmd', hperforms⟩
    · omega
    · have haccepted := hperforms.2.1
      have hip' := hperforms.2.2.1
      have htarget := Option.some.inj (hip.symm.trans hip')
      rw [acceptedCommand, if_pos hpos, hip', Option.map_some, Option.some.injEq] at haccepted
      have hsign : (letter cmd).1 = (letter cmd').1 := by rw [← haccepted, ← haction]
      rw [command_ext hsign htarget]
      exact hperforms

theorem refuses_iff {blacklist : List Addr} (hl : blacklist.Nodup) {c : WriteCall} :
    Refuses in4Pton blacklist c ↔ ∀ cmd, ¬ Performs in4Pton blacklist c cmd := by
  constructor
  · rintro ⟨hneg, -⟩ cmd ⟨hpos, -⟩
    omega
  · intro h
    rcases blacklistWrite_spec hl c with hrefuses | ⟨cmd, hperforms⟩
    · exact hrefuses
    · exact absurd hperforms (h cmd)

/-! ## The grammar and the code -/

theorem Reads.unique {text : List UInt8} {cmd cmd' : Command Addr} (h : Reads text cmd)
    (h' : Reads text cmd') : cmd = cmd' :=
  command_ext (Option.some.inj (h.1.symm.trans h'.1)) (h.2.1.unique h'.2.1)

/-- The code follows the grammar when it finds the command the text denotes. -/
theorem followsGrammar_iff_reads (h : ∀ s ip, in4Pton s = some ip ↔ Dotted s ip)
    {c : WriteCall} :
    FollowsGrammar in4Pton c ↔ ∀ cmd, Denotes c.buf cmd ↔ ¬ c.Fails ∧ Reads c.buf cmd := by
  constructor
  · intro hfollows cmd
    obtain ⟨hdo, hrefuse⟩ := hfollows [] List.nodup_nil
    constructor
    · intro hden
      exact (performs_iff h List.nodup_nil).1 (hdo cmd hden)
    · intro hreads
      have hperforms := (performs_iff h List.nodup_nil).2 hreads
      by_contra hnot
      by_cases hany : ∃ cmd', Denotes c.buf cmd'
      · obtain ⟨cmd', hden⟩ := hany
        have hreads' := (performs_iff h List.nodup_nil).1 (hdo cmd' hden)
        exact hnot (hreads.2.unique hreads'.2 ▸ hden)
      · exact (refuses_iff List.nodup_nil).1 (hrefuse (not_exists.1 hany)) cmd hperforms
  · intro hsame blacklist hl
    refine ⟨fun cmd hden => (performs_iff h hl).2 ((hsame cmd).1 hden), fun hnone => ?_⟩
    refine (refuses_iff hl).2 fun cmd hperforms => hnone cmd ?_
    exact (hsame cmd).2 ((performs_iff h hl).1 hperforms)

/-- The texts in which the code finds the command they denote. -/
theorem not_misread_iff {text : List UInt8} :
    ¬ Misread text ↔ ∀ cmd, Denotes text cmd ↔ Reads text cmd := by
  have hshort : (addressText text).length ≤ 31 → (addressText text).take 31 = addressText text :=
    List.take_of_length_le
  constructor
  · intro hmisread cmd
    rw [denotes_iff, Reads]
    refine and_congr_right fun hsign => ?_
    rcases Nat.lt_or_ge 31 (addressText text).length with hlen | hlen
    · constructor
      · rintro ⟨hdotted, hblanks⟩
        refine ⟨?_, Or.inl hlen.le⟩
        by_contra hunread
        exact hmisread (.lost cmd hsign hlen hdotted hblanks hunread)
      · rintro ⟨hdotted, -⟩
        by_contra hother
        exact hmisread (.cut cmd hsign hlen hdotted hother)
    · rw [hshort hlen]
      refine and_congr_right fun hdotted => ⟨fun hblanks => ?_, fun hhidden => ?_⟩
      · exact Or.inr (Or.inr fun b hb => hblanks b (List.mem_of_mem_take hb))
      · by_contra hjunk
        push Not at hjunk
        obtain ⟨b, hb, hblank⟩ := hjunk
        exact hmisread (.junk cmd hsign hlen hdotted hhidden ⟨b, hb, Bool.eq_false_iff.2 hblank⟩)
  · intro hsame hmisread
    cases hmisread with
    | junk cmd sign fits address hidden junk =>
      obtain ⟨b, hb, hblank⟩ := junk
      have hreads : Reads text cmd := ⟨sign, (hshort fits).symm ▸ address, hidden⟩
      have := (denotes_iff.1 ((hsame cmd).2 hreads)).2.2 b hb
      rw [hblank] at this
      cases this
    | cut cmd sign long address other =>
      have hreads : Reads text cmd := ⟨sign, address, Or.inl long.le⟩
      exact other (denotes_iff.1 ((hsame cmd).2 hreads)).2
    | lost cmd sign long address blanks unread =>
      exact unread ((hsame cmd).1 (denotes_iff.2 ⟨sign, address, blanks⟩)).2.1

/-- **The code follows the grammar exactly on the texts that are not misread**; a call that fails
refuses, which is right for the texts that denote nothing. -/
theorem followsGrammar_iff (in4Pton : List UInt8 → Option Addr)
    (h : ∀ s ip, in4Pton s = some ip ↔ Dotted s ip) (c : WriteCall) :
    FollowsGrammar in4Pton c ↔
      if c.Fails then ∀ cmd, ¬ Denotes c.buf cmd else ¬ Misread c.buf := by
  rw [followsGrammar_iff_reads h]
  split
  · rename_i hfails
    exact forall_congr' fun cmd => by simp [hfails]
  · rename_i hfails
    rw [not_misread_iff]
    exact forall_congr' fun cmd => by simp [hfails]

/-- The grammar is followed on `+10.0.0.1` and a line end. -/
theorem followsGrammar_line :
    FollowsGrammar dottedQuad ⟨ascii "+10.0.0.1\n", false, false⟩ := by
  have hlen : (addressText (ascii "+10.0.0.1\n")).length = 8 := rfl
  refine (followsGrammar_iff dottedQuad (fun _ _ => dottedQuad_eq_some) _).2 ?_
  rw [if_neg (by decide)]
  intro hmisread
  cases hmisread with
  | junk cmd sign fits address hidden junk =>
    obtain ⟨b, hb, hblank⟩ := junk
    obtain rfl : b = 10 := by simpa using (show b ∈ [10] from hb)
    cases hblank
  | cut cmd sign long => exact absurd (hlen ▸ long) (by decide)
  | lost cmd sign long => exact absurd (hlen ▸ long) (by decide)

/-- `+1.2.3.4`, a NUL and more is accepted, and `1.1.1.100` with 24 zeros in front of it is taken
for `1.1.1.1`. -/
theorem not_followsGrammar :
    ¬ FollowsGrammar dottedQuad ⟨ascii "+1.2.3.4" ++ [0, 120], false, false⟩ ∧
      ¬ FollowsGrammar dottedQuad
        ⟨ascii "+0000000000000000000000001.1.1.100", false, false⟩ := by
  constructor
  · intro hfollows
    have hsame := (followsGrammar_iff_reads fun _ _ => dottedQuad_eq_some).1 hfollows
      (.add (ofOctets [1, 2, 3, 4]))
    have hreads : Reads (ascii "+1.2.3.4" ++ [0, 120]) (.add (ofOctets [1, 2, 3, 4])) :=
      ⟨rfl, ⟨[[49], [50], [51], [52]], rfl, by decide, rfl, rfl⟩, Or.inr (Or.inl rfl)⟩
    have hblanks := (denotes_iff.1 (hsame.2 ⟨by decide, hreads⟩)).2.2 120 (by decide)
    cases hblanks
  · intro hfollows
    have hsame := (followsGrammar_iff_reads fun _ _ => dottedQuad_eq_some).1 hfollows
      (.add (ofOctets [1, 1, 1, 100]))
    have hden : Denotes (ascii "+0000000000000000000000001.1.1.100")
        (.add (ofOctets [1, 1, 1, 100])) := by
      refine ⟨ascii "0000000000000000000000001.1.1.100", [], rfl, ?_, by simp⟩
      exact ⟨[List.replicate 24 48 ++ [49], [49], [49], [49, 48, 48]], rfl, by decide, rfl,
        congrArg ofOctets rfl⟩
    have hread : Dotted (ascii "0000000000000000000000001.1.1.1") (ofOctets [1, 1, 1, 1]) :=
      ⟨[List.replicate 24 48 ++ [49], [49], [49], [49]], rfl, by decide, rfl, congrArg ofOctets rfl⟩
    have hother := (hsame.1 hden).2.2.1
    exact absurd (hread.unique hother) (by decide)

end EltexPractice.Netfilter
