import EltexPractice.UdpChat.Packet

/-!
# Short datagrams

`handle_incoming_packet` compares what `recvfrom` returned with 0 only, and reads the fields of the
packet from an uninitialised variable: behind the end of a shorter datagram lies what was on the
stack. Two runs on the same datagrams display the same exactly when every datagram is
`Determined`: no byte behind its end reaches the display.
-/

namespace EltexPractice.UdpChat

open CString

/-! ## The fields -/

/-- The packet after `recvfrom`. -/
def packetOf (stale : Bytes) (datagram : List UInt8) : Bytes :=
  received stale (datagram.take sizeofChatPacket)

def pidOf (packet : Bytes) : ℤ := toInt (leValue (bytesAt packet 4 4))

def typeOf (packet : Bytes) : ℤ := toInt (leValue (bytesAt packet 0 4))

/-- The nickname, whose array ends with a NUL at 39. -/
def nicknameOf (packet : Bytes) : List UInt8 := cstr (bytesAt packet 8 31)

/-- The text, whose array ends with a NUL at 551. -/
def textOf (packet : Bytes) : List UInt8 := cstr (bytesAt packet 40 511)

/-- The line of a packet of another process. -/
def lineOf (pid type : ℤ) (nickname text : List UInt8) : List UInt8 :=
  (if type = MsgType.join.code then
    utf8 "\r\x1b[32m[+] В сети появился новый участник: " ++ nickname ++ utf8 " (PID: " ++
      decimal pid ++ utf8 ")\x1b[0m\n"
  else if type = MsgType.chat.code then
    utf8 "\r\x1b[36m[" ++ nickname ++ utf8 "]:\x1b[0m " ++ text ++ utf8 "\n"
  else if type = MsgType.leave.code then
    utf8 "\r\x1b[31m[-] " ++ nickname ++ utf8 " (PID: " ++ decimal pid ++
      utf8 ") вышел из сети\x1b[0m\n"
  else []) ++ ascii "\r> "

/-! ## Two runs -/

/-- What is displayed for a sequence of datagrams, `none` where `recvfrom` fails; `stale` is what
is on the stack at each call. -/
def displayed (getpid : Int32) (stale : ℕ → Bytes) : List (Option (List UInt8)) → List UInt8
  | [] => []
  | datagram :: datagrams =>
    handleIncomingPacket getpid (stale 0) datagram ++
      displayed getpid (fun i => stale (i + 1)) datagrams

/-- The display does not depend on what is on the stack. -/
def Independent (getpid : Int32) (datagrams : List (Option (List UInt8))) : Prop :=
  ∀ stale stale', displayed getpid stale datagrams = displayed getpid stale' datagrams

/-- A string of `n` bytes from `a` on was received, or ends within what was received. -/
def Settled (datagram : List UInt8) (a n : ℕ) : Prop :=
  a + n ≤ datagram.length ∨ 0 ∈ (datagram.drop a).take n

/-- A packet of this type is displayed with a nickname. -/
def Shown (type : ℤ) : Prop :=
  type = MsgType.join.code ∨ type = MsgType.chat.code ∨ type = MsgType.leave.code

/-- The type of a datagram that contains one. -/
def datagramType (datagram : List UInt8) : ℤ := toInt (leValue (datagram.take 4))

/-- The display is determined by the datagram: its process number is the own one, or it is of no
type that is displayed, or what is displayed of it was received; a datagram that ends in the
process number is known to be of another process, and of no such type. -/
def Determined (getpid : Int32) (datagram : List UInt8) : Prop :=
  if 8 ≤ datagram.length then
    (datagram.drop 4).take 4 = intBytes getpid.toInt ∨ ¬ Shown (datagramType datagram) ∨
      (Settled datagram 8 31 ∧
        (datagramType datagram = MsgType.chat.code → Settled datagram 40 511))
  else
    ¬ datagram.drop 4 <+: intBytes getpid.toInt ∧ ¬ Shown (datagramType datagram)

/-! ## One datagram -/

variable {getpid : Int32} {stale stale' : Bytes} {datagram : List UInt8}

theorem handleIncomingPacket_eq (getpid : Int32) (stale : Bytes) (datagram : List UInt8) :
    handleIncomingPacket getpid stale (some datagram) =
      if pidOf (packetOf stale datagram) = getpid.toInt then []
      else lineOf (pidOf (packetOf stale datagram)) (typeOf (packetOf stale datagram))
        (nicknameOf (packetOf stale datagram)) (textOf (packetOf stale datagram)) := by
  have hfield : ∀ (m : Bytes) (a n : ℕ),
      cstr ((bytesAt m a (n + 1)).set n 0) = cstr (bytesAt m a n) := by
    intro m a n
    have htake : (bytesAt m a (n + 1)).take n = bytesAt m a n := by
      rw [bytesAt_add, List.take_left' (length_bytesAt ..)]
    rw [cstr_set (by rw [length_bytesAt]; exact Nat.lt_succ_self n), htake]
  rw [nicknameOf, textOf, ← hfield _ 8 31, ← hfield _ 40 511]
  rfl

/-- A line differs with its nickname, and with the text of a message. -/
theorem lineOf_inj {pid type : ℤ} {nickname nickname' text text' : List UInt8}
    (h : lineOf pid type nickname text = lineOf pid type nickname' text') :
    (Shown type → text = text' → nickname = nickname') ∧
      (type = MsgType.chat.code → nickname = nickname' → text = text') := by
  rw [lineOf, lineOf, List.append_left_inj] at h
  refine ⟨?_, fun htype hnickname => ?_⟩
  · rintro (htype | htype | htype) htext
    · rw [if_pos htype, if_pos htype] at h
      simpa using h
    · rw [if_neg (by rw [htype]; decide), if_pos htype, if_neg (by rw [htype]; decide),
        if_pos htype, htext] at h
      simpa using h
    · rw [if_neg (by rw [htype]; decide), if_neg (by rw [htype]; decide), if_pos htype,
        if_neg (by rw [htype]; decide), if_neg (by rw [htype]; decide), if_pos htype] at h
      simpa using h
  · rw [if_neg (by rw [htype]; decide), if_pos htype, if_neg (by rw [htype]; decide),
      if_pos htype, hnickname] at h
    simpa using h

theorem lineOf_of_not_shown {type : ℤ} (h : ¬ Shown type) (pid : ℤ) (nickname text : List UInt8) :
    lineOf pid type nickname text = ascii "\r> " := by
  rw [Shown, not_or, not_or] at h
  rw [lineOf, if_neg h.1, if_neg h.2.1, if_neg h.2.2, List.nil_append]

theorem lineOf_ne_nil (pid type : ℤ) (nickname text : List UInt8) :
    lineOf pid type nickname text ≠ [] := by
  rw [lineOf]
  exact List.append_ne_nil_of_right_ne_nil _ (by decide)

theorem length_take_size (datagram : List UInt8) :
    (datagram.take sizeofChatPacket).length = min 552 datagram.length := List.length_take

/-- A field that was received. -/
theorem bytesAt_packetOf (stale : Bytes) {k n : ℕ} (h : k + n ≤ datagram.length)
    (hsize : k + n ≤ 552) : bytesAt (packetOf stale datagram) k n = (datagram.drop k).take n := by
  have hlen := length_take_size datagram
  rw [packetOf, bytesAt_received stale (by omega), List.drop_take, List.take_take,
    Nat.min_eq_left (by unfold sizeofChatPacket; omega)]

/-- A byte behind the end. -/
theorem packetOf_of_ge (stale : Bytes) {i : ℕ} (h : datagram.length ≤ i) :
    packetOf stale datagram i = stale i :=
  received_of_ge stale (by have := length_take_size datagram; omega)

/-- The process number is the own one when its bytes are. -/
theorem pidOf_eq {packet : Bytes} :
    pidOf packet = getpid.toInt ↔ bytesAt packet 4 4 = intBytes getpid.toInt := by
  constructor
  · intro h
    rw [← h, pidOf, intBytes_toInt_leValue (length_bytesAt ..)]
  · intro h
    rw [pidOf, h]
    exact toInt_intBytes_pid getpid

/-- A datagram that ends in the process number may be given any bytes for the rest of it. -/
theorem pid_prefix (hshort : datagram.length < 8) (stale : Bytes) :
    bytesAt (packetOf stale datagram) 4 4 = datagram.drop 4 ++
      bytesAt stale (4 + (datagram.drop 4).length) (4 - (datagram.drop 4).length) := by
  have hdrop : (datagram.drop 4).length = datagram.length - 4 := List.length_drop
  have hsplit : 4 = (datagram.drop 4).length + (4 - (datagram.drop 4).length) := by omega
  conv_lhs => rw [show bytesAt (packetOf stale datagram) 4 4 = bytesAt (packetOf stale datagram) 4
    ((datagram.drop 4).length + (4 - (datagram.drop 4).length)) by rw [← hsplit]]
  rw [bytesAt_add]
  congr 1
  · rcases Nat.lt_or_ge datagram.length 4 with hlt | hge
    · rw [List.drop_eq_nil_of_le hlt.le]
      rfl
    · rw [bytesAt_packetOf stale (by omega) (by omega), List.take_length]
  · exact bytesAt_congr fun i h₁ _ => packetOf_of_ge stale (by omega)

/-- A settled string does not depend on what was there before. -/
theorem settled_string {a n : ℕ} (h : Settled datagram a n) (hsize : a + n ≤ 552)
    (stale stale' : Bytes) :
    cstr (bytesAt (packetOf stale datagram) a n) =
      cstr (bytesAt (packetOf stale' datagram) a n) := by
  rcases h with hlong | hzero
  · rw [bytesAt_packetOf stale hlong hsize, bytesAt_packetOf stale' hlong hsize]
  · -- the part that was received contains the NUL
    rcases Nat.lt_or_ge datagram.length a with hshort | hge
    · rw [List.drop_eq_nil_of_le hshort.le, List.take_nil] at hzero
      cases hzero
    obtain ⟨k, hk⟩ : ∃ k, k = min n (datagram.length - a) := ⟨_, rfl⟩
    obtain ⟨j, rfl⟩ : ∃ j, n = k + j := ⟨n - k, by omega⟩
    have hpart : ∀ s, bytesAt (packetOf s datagram) a k = (datagram.drop a).take (k + j) := by
      intro s
      rw [bytesAt_packetOf s (by omega) (by omega), List.take_eq_take_iff, List.length_drop]
      omega
    have hcut : ∀ s, cstr (bytesAt (packetOf s datagram) a (k + j)) =
        cstr ((datagram.drop a).take (k + j)) := by
      intro s
      rw [bytesAt_add, hpart s, cstr_append_of_mem hzero]
    rw [hcut stale, hcut stale']

theorem typeOf_packetOf (stale : Bytes) (h : 4 ≤ datagram.length) :
    typeOf (packetOf stale datagram) = datagramType datagram := by
  rw [typeOf, datagramType, bytesAt_packetOf stale (by omega) (by omega), List.drop_zero]

/-- A datagram that is too short to hold the own process number in full may be completed to it, when
it starts with what was received. -/
theorem prefix_of_pid (hshort : datagram.length < 8)
    (h : pidOf (packetOf stale datagram) = getpid.toInt) :
    datagram.drop 4 <+: intBytes getpid.toInt := by
  rw [pidOf_eq, pid_prefix hshort] at h
  exact ⟨_, h⟩

/-- **A determined datagram shows nothing of the stack.** -/
theorem handle_of_determined (h : Determined getpid datagram) (stale stale' : Bytes) :
    handleIncomingPacket getpid stale (some datagram) =
      handleIncomingPacket getpid stale' (some datagram) := by
  rw [Determined] at h
  rw [handleIncomingPacket_eq, handleIncomingPacket_eq]
  split at h
  · rename_i hlong
    have hbytes : ∀ s, bytesAt (packetOf s datagram) 4 4 = (datagram.drop 4).take 4 := fun s =>
      bytesAt_packetOf s hlong (by omega)
    have hpid : pidOf (packetOf stale datagram) = pidOf (packetOf stale' datagram) := by
      rw [pidOf, pidOf, hbytes, hbytes]
    have htype := fun s => @typeOf_packetOf datagram s (by omega)
    rw [hpid, htype stale, htype stale']
    split
    · rfl
    · rename_i hother
      rcases h with hown | hnot | ⟨hnickname, htext⟩
      · rw [pidOf_eq, hbytes] at hother
        exact absurd hown hother
      · rw [lineOf_of_not_shown hnot, lineOf_of_not_shown hnot]
      · rw [nicknameOf, settled_string hnickname (by omega) stale stale', ← nicknameOf]
        by_cases hchat : datagramType datagram = MsgType.chat.code
        · rw [textOf, settled_string (htext hchat) (by omega) stale stale', ← textOf]
        · simp only [lineOf, if_neg hchat]
  · rename_i hshort
    obtain ⟨hpref, hnot⟩ := h
    have hlen : 4 ≤ datagram.length := by
      by_contra hlt
      rw [List.drop_eq_nil_of_le (by omega)] at hpref
      exact hpref (List.nil_prefix)
    have hother : ∀ s, pidOf (packetOf s datagram) ≠ getpid.toInt := fun s hpid =>
      hpref (prefix_of_pid (by omega) hpid)
    rw [if_neg (hother stale), if_neg (hother stale'), typeOf_packetOf stale hlen,
      typeOf_packetOf stale' hlen, lineOf_of_not_shown hnot, lineOf_of_not_shown hnot]

/-! ## What the stack can change -/

/-- A stack with one byte that is not NUL. -/
def poke (i : ℕ) (b : UInt8) : Bytes := Function.update (fun _ => 0) i b

theorem packetOf_of_lt (stale : Bytes) {i : ℕ} (h : i < datagram.length) (hsize : i < 552) :
    packetOf stale datagram i = datagram[i] := by
  have hone := @bytesAt_packetOf datagram stale i 1 h hsize
  rw [List.drop_eq_getElem_cons h, List.take_succ_cons] at hone
  exact (List.cons.inj hone).1

/-- A string shows the byte behind what was received. -/
theorem string_poke {a n : ℕ} {b : UInt8} (hb : b ≠ 0) (hsize : a + n ≤ 552) (hn : 0 < n)
    (h : ¬ Settled datagram a n) :
    (cstr (bytesAt (packetOf (poke (max datagram.length a) b) datagram) a n))[
      max datagram.length a - a]? = some b := by
  rw [Settled, not_or] at h
  obtain ⟨hshort, hzero⟩ := h
  set p := max datagram.length a with hp
  set packet := packetOf (poke p b) datagram with hpacket
  have hknown : 0 ∉ bytesAt packet a (p - a) := by
    intro hmem
    obtain ⟨i, h₁, h₂, h0⟩ := mem_bytesAt.1 hmem
    have hi : i < datagram.length := by omega
    rw [hpacket, packetOf_of_lt _ hi (by omega)] at h0
    refine hzero (List.mem_iff_getElem.2 ⟨i - a, ?_, ?_⟩)
    · rw [List.length_take, List.length_drop]
      omega
    · rw [List.getElem_take, List.getElem_drop, ← h0]
      congr 1
      omega
  have hnext : packet p = b := by
    rw [hpacket, packetOf_of_ge _ (le_max_left _ _), poke, Function.update_self]
  obtain ⟨k, hk⟩ : ∃ k, n = (p - a) + (k + 1) := ⟨n - (p - a) - 1, by omega⟩
  rw [hk, bytesAt_add, show a + (p - a) = p by omega, bytesAt, hnext, cstr_append_of_notMem hknown,
    List.getElem?_append_right (length_bytesAt ..).le, length_bytesAt, Nat.sub_self, cstr,
    List.takeWhile_cons_of_pos (by simpa using hb)]
  rfl

/-- Elsewhere the two stacks are alike. -/
theorem packetOf_poke {p : ℕ} (b b' : UInt8) {a n : ℕ} (h : a + n ≤ p ∨ p < a) :
    bytesAt (packetOf (poke p b) datagram) a n = bytesAt (packetOf (poke p b') datagram) a n := by
  refine bytesAt_congr fun i h₁ h₂ => ?_
  have hne : i ≠ p := by omega
  rcases Nat.lt_or_ge i (datagram.take sizeofChatPacket).length with hlt | hge
  · exact received_congr _ _ hlt
  · rw [packetOf, packetOf, received_of_ge _ hge, received_of_ge _ hge, poke, poke,
      Function.update_of_ne hne, Function.update_of_ne hne]

section

variable (h : ∀ stale stale', handleIncomingPacket getpid stale (some datagram) =
  handleIncomingPacket getpid stale' (some datagram))

include h

/-- A nickname that is displayed was received. -/
theorem nickname_settled (hlen : 4 ≤ datagram.length)
    (hother : ∀ s, pidOf (packetOf s datagram) ≠ getpid.toInt)
    (hshown : Shown (datagramType datagram)) : Settled datagram 8 31 := by
  by_contra hun
  have hshort : datagram.length < 39 := by
    by_contra hge
    exact hun (Or.inl (by omega))
  set p := max datagram.length 8 with hp
  have hsame := h (poke p 65) (poke p 66)
  have hpid : pidOf (packetOf (poke p 65) datagram) = pidOf (packetOf (poke p 66) datagram) := by
    rw [pidOf, pidOf, packetOf_poke 65 66 (by omega)]
  have htext : textOf (packetOf (poke p 65) datagram) = textOf (packetOf (poke p 66) datagram) := by
    rw [textOf, textOf, packetOf_poke 65 66 (by omega)]
  rw [handleIncomingPacket_eq, handleIncomingPacket_eq, if_neg (hother _), if_neg (hother _),
    typeOf_packetOf _ hlen, typeOf_packetOf _ hlen, hpid] at hsame
  have hnickname := (lineOf_inj hsame).1 hshown htext
  have h65 := string_poke (b := 65) (by decide) (by omega) (by omega) hun
  have h66 := string_poke (b := 66) (by decide) (by omega) (by omega) hun
  rw [← hp, ← nicknameOf] at h65 h66
  rw [hnickname, h66] at h65
  cases h65

/-- A text that is displayed was received. -/
theorem text_settled (hlen : 4 ≤ datagram.length)
    (hother : ∀ s, pidOf (packetOf s datagram) ≠ getpid.toInt)
    (hchat : datagramType datagram = MsgType.chat.code) : Settled datagram 40 511 := by
  by_contra hun
  have hshort : datagram.length < 551 := by
    by_contra hge
    exact hun (Or.inl (by omega))
  set p := max datagram.length 40 with hp
  have hsame := h (poke p 65) (poke p 66)
  have hpid : pidOf (packetOf (poke p 65) datagram) = pidOf (packetOf (poke p 66) datagram) := by
    rw [pidOf, pidOf, packetOf_poke 65 66 (by omega)]
  have hnickname : nicknameOf (packetOf (poke p 65) datagram) =
      nicknameOf (packetOf (poke p 66) datagram) := by
    rw [nicknameOf, nicknameOf, packetOf_poke 65 66 (by omega)]
  rw [handleIncomingPacket_eq, handleIncomingPacket_eq, if_neg (hother _), if_neg (hother _),
    typeOf_packetOf _ hlen, typeOf_packetOf _ hlen, hpid] at hsame
  have htext := (lineOf_inj hsame).2 hchat hnickname
  have h65 := string_poke (b := 65) (by decide) (by omega) (by omega) hun
  have h66 := string_poke (b := 66) (by decide) (by omega) (by omega) hun
  rw [← hp, ← textOf] at h65 h66
  rw [htext, h66] at h65
  cases h65

/-- What was received of a short process number is not the start of the own one. -/
theorem not_prefix (hshort : datagram.length < 8) :
    ¬ datagram.drop 4 <+: intBytes getpid.toInt := by
  rintro ⟨t, ht⟩
  have hdrop : (datagram.drop 4).length = datagram.length - 4 := List.length_drop
  have hlen := congrArg List.length ht
  rw [List.length_append, length_intBytes] at hlen
  set a := 4 + (datagram.drop 4).length with ha
  -- one stack completes the number, the other does not
  set own := writeBytes (fun _ => 0) a t with hown
  have hread : bytesAt own a (4 - (datagram.drop 4).length) = t := by
    rw [← show t.length = 4 - (datagram.drop 4).length by omega]
    exact bytesAt_writeBytes ..
  have hpid : pidOf (packetOf own datagram) = getpid.toInt := by
    rw [pidOf_eq, pid_prefix hshort, ← ha, hread, ht]
  have hother : pidOf (packetOf (fun i => own i + 1) datagram) ≠ getpid.toInt := by
    rw [Ne, pidOf_eq, pid_prefix hshort, ← ht, List.append_right_inj, ← ha, ← hread]
    obtain ⟨k, hk⟩ : ∃ k, 4 - (datagram.drop 4).length = k + 1 :=
      ⟨_, (Nat.succ_pred (by omega)).symm⟩
    rw [hk, bytesAt, bytesAt]
    intro heq
    have hbyte := congrArg UInt8.toNat (List.cons.inj heq).1
    rw [UInt8.toNat_add] at hbyte
    have := (own a).toNat_lt
    simp at hbyte
    omega
  have hsame := h own fun i => own i + 1
  rw [handleIncomingPacket_eq, handleIncomingPacket_eq, if_pos hpid, if_neg hother] at hsame
  exact lineOf_ne_nil _ _ _ _ hsame.symm

/-- **Only a determined datagram hides the stack.** -/
theorem determined_of_handle : Determined getpid datagram := by
  rw [Determined]
  split
  · rename_i hlong
    by_cases hown : (datagram.drop 4).take 4 = intBytes getpid.toInt
    · exact Or.inl hown
    by_cases hshown : Shown (datagramType datagram)
    · have hother : ∀ s, pidOf (packetOf s datagram) ≠ getpid.toInt := fun s => by
        rw [Ne, pidOf_eq, bytesAt_packetOf s hlong (by omega)]
        exact hown
      exact Or.inr (Or.inr ⟨nickname_settled h (by omega) hother hshown,
        text_settled h (by omega) hother⟩)
    · exact Or.inr (Or.inl hshown)
  · rename_i hshort
    have hpref := not_prefix h (by omega)
    refine ⟨hpref, fun hshown => ?_⟩
    have hlen : 4 ≤ datagram.length := by
      by_contra hlt
      rw [List.drop_eq_nil_of_le (by omega)] at hpref
      exact hpref List.nil_prefix
    have hother : ∀ s, pidOf (packetOf s datagram) ≠ getpid.toInt := fun s hpid =>
      hpref (prefix_of_pid (by omega) hpid)
    rcases nickname_settled h hlen hother hshown with hlong | hzero
    · omega
    · rw [List.drop_eq_nil_of_le (by omega), List.take_nil] at hzero
      cases hzero

end

/-! ## All datagrams -/

theorem independent_cons {getpid : Int32} {first : Option (List UInt8)}
    {rest : List (Option (List UInt8))} :
    Independent getpid (first :: rest) ↔
      (∀ stale stale', handleIncomingPacket getpid stale first =
        handleIncomingPacket getpid stale' first) ∧ Independent getpid rest := by
  constructor
  · intro h
    refine ⟨fun stale stale' => ?_, fun stale stale' => ?_⟩
    · have hfirst := h (fun _ => stale) fun i => if i = 0 then stale' else stale
      exact List.append_cancel_right hfirst
    · have hrest := h (fun i => if i = 0 then stale 0 else stale (i - 1))
        fun i => if i = 0 then stale 0 else stale' (i - 1)
      exact List.append_cancel_left hrest
  · rintro ⟨hfirst, hrest⟩ stale stale'
    rw [displayed, displayed, hfirst (stale 0) (stale' 0), hrest]

/-- **The display depends only on the datagrams** exactly when each of them is determined. -/
theorem independent_iff (getpid : Int32) (datagrams : List (Option (List UInt8))) :
    Independent getpid datagrams ↔
      ∀ datagram, some datagram ∈ datagrams → Determined getpid datagram := by
  induction datagrams with
  | nil => exact iff_of_true (fun _ _ => rfl) fun datagram h => absurd h List.not_mem_nil
  | cons first rest ih =>
    rw [independent_cons, ih]
    constructor
    · rintro ⟨hfirst, hrest⟩ datagram hmem
      rcases List.mem_cons.1 hmem with rfl | hmem
      · exact determined_of_handle hfirst
      · exact hrest datagram hmem
    · intro h
      refine ⟨?_, fun datagram hmem => h datagram (List.mem_cons_of_mem _ hmem)⟩
      cases first with
      | none => exact fun _ _ => rfl
      | some datagram => exact handle_of_determined (h datagram List.mem_cons_self)

/-- The first eight bytes of a `MSG_JOIN` of process 7 show a nickname of the stack to process 1. -/
theorem not_independent : ¬ Independent 1 [some [1, 0, 0, 0, 7, 0, 0, 0]] := by
  intro h
  have hdetermined := determined_of_handle (independent_cons.1 h).1
  have htype : datagramType [1, 0, 0, 0, 7, 0, 0, 0] = MsgType.join.code :=
    toInt_intBytes_code .join
  rw [Determined, if_pos (by decide)] at hdetermined
  rcases hdetermined with hown | hnot | ⟨hlong | hzero, -⟩
  · exact absurd hown (by decide)
  · exact hnot (Or.inl htype)
  · exact absurd hlong (by decide)
  · cases hzero

end EltexPractice.UdpChat
