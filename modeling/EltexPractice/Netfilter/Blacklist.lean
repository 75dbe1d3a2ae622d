import EltexPractice.Foundations.CString
import EltexPractice.Foundations.OrderedSet
import Mathlib.Data.List.DropRight

/-!
# The blacklist of the netfilter module

`nf.c`: the linked list `blacklist_ips` of IPv4 addresses, `blacklist_write`, which changes it by
the texts written to `/proc/ip_blacklist`, and `hook_func_in`, which drops a packet whose
destination is on the list. `in4_pton` is a parameter: any partial function from strings to
addresses. Each loop over the list runs under `blacklist_lock`, so a call is one action.

* `blacklistAfter_eq_run`: over any history of calls, the list is the ordered set of the accepted
  commands.
* `blacklist_refines_set`: what the filter decides, no address twice, the order of insertion, the
  calls that fail, and the addresses a command does not name.
-/

namespace EltexPractice.Netfilter

open CString

/-- `__be32` -/
abbrev Addr := UInt32

/-- `ssize_t` results of `blacklist_write` below zero. -/
def EFAULT : ℤ := 14
def EINVAL : ℤ := 22
def ENOMEM : ℤ := 12

inductive Verdict
  | NF_DROP
  | NF_ACCEPT
  deriving DecidableEq

/-- The field of `struct iphdr` that the decision depends on. -/
structure IpHdr where
  daddr : Addr

/-- `struct sk_buff`: what `skb_network_header` returns, `none` for NULL. -/
structure SkBuff where
  networkHeader : Option IpHdr

/-- A call of `blacklist_write`: the `count` bytes at `buf`, and whether `copy_from_user` or
`kmalloc` fails in it. -/
structure WriteCall where
  buf : List UInt8
  copyFails : Bool
  kmallocFails : Bool

/-! ## The text of a command -/

/-- The loop that cuts line ends and blanks off the end of `kbuf`. -/
def trimEnd (kbuf : List UInt8) : List UInt8 :=
  kbuf.rdropWhile fun b => b == 10 || b == 13 || b == 32

/-- `strscpy(dst, src, size)` -/
def strscpy (size : ℕ) (src : List UInt8) : List UInt8 := src.take (size - 1)

namespace WriteCall

variable (c : WriteCall)

/-- `kbuf` before the NUL at `kbuf[len]`: `char kbuf[64]` after the copy and the trimming. -/
def kbuf : List UInt8 := trimEnd (c.buf.take (min c.buf.length (64 - 1)))

def action : UInt8 := c.kbuf.headD 0

/-- `char ip_str[32]` -/
def ipStr : List UInt8 := strscpy 32 (cstr (c.kbuf.drop 1))

end WriteCall

section Calls

variable (in4Pton : List UInt8 → Option Addr)

/-- The return value and the list after the call. -/
def blacklistWrite (blacklist : List Addr) (c : WriteCall) : ℤ × List Addr :=
  let count : ℤ := c.buf.length
  if c.copyFails then (-EFAULT, blacklist)
  else if c.kbuf.length < 2 then (-EINVAL, blacklist)
  else match in4Pton c.ipStr with
    | none => (-EINVAL, blacklist)
    | some ip =>
      if c.action = 43 then
        if c.kmallocFails then (-ENOMEM, blacklist)
        -- the search, then `list_add_tail`
        else if blacklist.any (· == ip) then (count, blacklist)
        else (count, blacklist ++ [ip])
      else if c.action = 45 then
        -- the first entry with the address is deleted, then `break`
        (count, blacklist.eraseP (· == ip))
      else (-EINVAL, blacklist)

/-- The verdict of the hook on a packet that leaves the host. -/
def hookFuncIn (blacklist : List Addr) (skb : Option SkBuff) : Verdict :=
  match skb with
  | none => .NF_ACCEPT
  | some skb =>
    match skb.networkHeader with
    | none => .NF_ACCEPT
    | some ipHeader => if blacklist.any (· == ipHeader.daddr) then .NF_DROP else .NF_ACCEPT

/-- The command of a call that returns no error: its action and the address it names. -/
def acceptedCommand (blacklist : List Addr) (c : WriteCall) : Option (UInt8 × Addr) :=
  if 0 ≤ (blacklistWrite in4Pton blacklist c).1 then
    (in4Pton c.ipStr).map fun ip => (c.action, ip)
  else none

/-- The list and the accepted commands after a sequence of calls; the list starts empty
(`LIST_HEAD`). -/
def history (calls : List WriteCall) : List Addr × List (UInt8 × Addr) :=
  calls.foldl (fun s c =>
    ((blacklistWrite in4Pton s.1 c).2, s.2 ++ (acceptedCommand in4Pton s.1 c).toList)) ([], [])

/-- The list after a sequence of calls. -/
def blacklistAfter (calls : List WriteCall) : List Addr := (history in4Pton calls).1

/-- The action of the last accepted command that names the address. -/
def lastAction (calls : List WriteCall) (ip : Addr) : Option UInt8 :=
  (((history in4Pton calls).2.filter fun a => a.2 = ip).getLast?).map (·.1)

end Calls

/-! ## One call -/

open OrderedSet (Command Evolves InsertedAt Before)

/-- The action and the address of a set command. -/
def letter : Command Addr → UInt8 × Addr
  | .add ip => (43, ip)
  | .remove ip => (45, ip)

@[simp] theorem letter_snd (cmd : Command Addr) : (letter cmd).2 = cmd.target := by
  cases cmd <;> rfl

theorem letter_fst {cmd : Command Addr} : (letter cmd).1 = 43 ↔ cmd = .add cmd.target := by
  cases cmd <;> simp [letter, Command.target]

theorem hookFuncIn_eq_drop {blacklist : List Addr} {skb : Option SkBuff} :
    hookFuncIn blacklist skb = .NF_DROP ↔
      ∃ ipHeader, (skb.bind (·.networkHeader)) = some ipHeader ∧ ipHeader.daddr ∈ blacklist := by
  rcases skb with - | ⟨- | ipHeader⟩
  · simp [hookFuncIn]
  · simp [hookFuncIn]
  · by_cases h : ipHeader.daddr ∈ blacklist <;> simp [hookFuncIn, h]

/-- A call refuses: an error, no command accepted, the same list. -/
def Refuses (in4Pton : List UInt8 → Option Addr) (blacklist : List Addr) (c : WriteCall) : Prop :=
  (blacklistWrite in4Pton blacklist c).1 < 0 ∧ acceptedCommand in4Pton blacklist c = none ∧
    (blacklistWrite in4Pton blacklist c).2 = blacklist

/-- A call carries out a command of an ordered set. -/
def Performs (in4Pton : List UInt8 → Option Addr) (blacklist : List Addr) (c : WriteCall)
    (cmd : Command Addr) : Prop :=
  0 ≤ (blacklistWrite in4Pton blacklist c).1 ∧
    acceptedCommand in4Pton blacklist c = some (letter cmd) ∧
    in4Pton c.ipStr = some cmd.target ∧
    (blacklistWrite in4Pton blacklist c).2 = OrderedSet.apply blacklist cmd

variable {in4Pton : List UInt8 → Option Addr}

theorem refuses_of_eq {blacklist : List Addr} {c : WriteCall} {e : ℤ} (he : e < 0)
    (h : blacklistWrite in4Pton blacklist c = (e, blacklist)) : Refuses in4Pton blacklist c := by
  refine ⟨by rw [h]; exact he, ?_, by rw [h]⟩
  rw [acceptedCommand, h, if_neg (not_le.2 he)]

theorem performs_of_eq {blacklist : List Addr} {c : WriteCall} {cmd : Command Addr}
    (h : blacklistWrite in4Pton blacklist c = ((c.buf.length : ℤ), OrderedSet.apply blacklist cmd))
    (hip : in4Pton c.ipStr = some cmd.target) (haction : c.action = (letter cmd).1) :
    Performs in4Pton blacklist c cmd := by
  refine ⟨by simp [h], ?_, hip, by rw [h]⟩
  rw [acceptedCommand, h, if_pos (Int.natCast_nonneg _), hip, haction, Option.map_some,
    ← letter_snd]

/-- **One call**: it refuses, or it carries out the command of its text. -/
theorem blacklistWrite_spec {blacklist : List Addr} (hl : blacklist.Nodup) (c : WriteCall) :
    Refuses in4Pton blacklist c ∨ ∃ cmd, Performs in4Pton blacklist c cmd := by
  by_cases hcopy : c.copyFails = true
  · exact Or.inl (refuses_of_eq (show -EFAULT < 0 by decide) (by simp [blacklistWrite, hcopy]))
  by_cases hlen : c.kbuf.length < 2
  · refine Or.inl (refuses_of_eq (show -EINVAL < 0 by decide) ?_)
    simp [blacklistWrite, hcopy, hlen]
  rcases hip : in4Pton c.ipStr with - | ip
  · refine Or.inl (refuses_of_eq (show -EINVAL < 0 by decide) ?_)
    simp [blacklistWrite, hcopy, hlen, hip]
  by_cases hadd : c.action = 43
  · by_cases hmem : c.kmallocFails = true
    · refine Or.inl (refuses_of_eq (show -ENOMEM < 0 by decide) ?_)
      simp [blacklistWrite, hcopy, hlen, hip, hadd, hmem]
    · refine Or.inr ⟨.add ip, performs_of_eq ?_ hip hadd⟩
      by_cases hold : ip ∈ blacklist
      · simp [blacklistWrite, hcopy, hlen, hip, hadd, hmem, hold, OrderedSet.apply,
          OrderedSet.insert_of_mem]
      · simp [blacklistWrite, hcopy, hlen, hip, hadd, hmem, hold, OrderedSet.apply,
          OrderedSet.insert_of_notMem]
  · by_cases hdel : c.action = 45
    · refine Or.inr ⟨.remove ip, performs_of_eq ?_ hip hdel⟩
      have herase : blacklist.eraseP (· == ip) = OrderedSet.remove blacklist ip := by
        rw [← OrderedSet.erase_eq_remove hl, List.erase_eq_eraseP']
      simp [blacklistWrite, hcopy, hlen, hip, hdel, herase, OrderedSet.apply]
    · refine Or.inl (refuses_of_eq (show -EINVAL < 0 by decide) ?_)
      simp [blacklistWrite, hcopy, hlen, hip, hadd, hdel]

/-! ## Any history of calls -/

theorem history_concat (calls : List WriteCall) (c : WriteCall) :
    history in4Pton (calls ++ [c]) =
      ((blacklistWrite in4Pton (history in4Pton calls).1 c).2,
        (history in4Pton calls).2 ++
          (acceptedCommand in4Pton (history in4Pton calls).1 c).toList) := by
  simp [history]

/-- **The list is the ordered set of the accepted commands.** -/
theorem blacklistAfter_eq_run (calls : List WriteCall) :
    ∃ cmds, (history in4Pton calls).2 = cmds.map letter ∧
      blacklistAfter in4Pton calls = OrderedSet.run cmds := by
  induction calls using List.reverseRecOn with
  | nil => exact ⟨[], rfl, rfl⟩
  | append_singleton calls c ih =>
    obtain ⟨cmds, hcmds, hlist⟩ := ih
    have hl : (blacklistAfter in4Pton calls).Nodup := hlist ▸ OrderedSet.nodup_run cmds
    rw [blacklistAfter, history_concat, hcmds]
    rcases blacklistWrite_spec hl c with ⟨-, hnone, hsame⟩ | ⟨cmd, -, hsome, -, hset⟩
    · refine ⟨cmds, ?_, hsame.trans hlist⟩
      rw [← blacklistAfter, hnone]
      simp
    · refine ⟨cmds ++ [cmd], ?_, ?_⟩
      · rw [← blacklistAfter, hsome]
        simp
      · rw [OrderedSet.run_concat, ← hlist]
        exact hset

theorem nodup_blacklistAfter (calls : List WriteCall) : (blacklistAfter in4Pton calls).Nodup := by
  obtain ⟨cmds, -, hlist⟩ := blacklistAfter_eq_run calls
  rw [hlist]
  exact OrderedSet.nodup_run cmds

/-- **An address is on the list exactly when the last accepted command that names it is `+`.** -/
theorem mem_blacklistAfter {calls : List WriteCall} {ip : Addr} :
    ip ∈ blacklistAfter in4Pton calls ↔ lastAction in4Pton calls ip = some 43 := by
  obtain ⟨cmds, hcmds, hlist⟩ := blacklistAfter_eq_run calls
  have hfilter : ((cmds.map letter).filter fun a => a.2 = ip) =
      (cmds.filter fun cmd => cmd.target = ip).map letter := by
    rw [List.filter_map]
    congr 2
    ext cmd
    simp
  rw [hlist, OrderedSet.mem_run, lastAction, hcmds, hfilter, List.getLast?_map, Option.map_map,
    Option.map_eq_some_iff]
  constructor
  · intro h
    exact ⟨.add ip, h, rfl⟩
  · rintro ⟨cmd, hlast, haction⟩
    have htarget : cmd.target = ip := by
      simpa using (List.mem_filter.1 (List.mem_of_getLast? hlast)).2
    rw [hlast, letter_fst.1 haction, htarget]

/-- One more call: a new address at the end, or a list without one of the addresses, or the
same list. -/
theorem evolves_blacklistWrite {blacklist : List Addr} (hl : blacklist.Nodup) (c : WriteCall) :
    Evolves blacklist (blacklistWrite in4Pton blacklist c).2 := by
  rcases blacklistWrite_spec hl c with ⟨-, -, hsame⟩ | ⟨cmd, -, -, -, hset⟩
  · rw [hsame]
    exact Or.inl (List.Sublist.refl _)
  · rw [hset]
    exact OrderedSet.evolves_apply blacklist cmd

/-- **The blacklist implements a set over any history of calls**, whatever fails in them. -/
theorem blacklist_refines_set (in4Pton : List UInt8 → Option Addr) (calls : List WriteCall) :
    let after := fun k => blacklistAfter in4Pton (calls.take k)
    let blacklist := blacklistAfter in4Pton calls
    (∀ ipHeader, hookFuncIn blacklist (some ⟨some ipHeader⟩) = .NF_DROP ↔
        lastAction in4Pton calls ipHeader.daddr = some 43) ∧
      (∀ skb, skb.bind (·.networkHeader) = none → hookFuncIn blacklist skb = .NF_ACCEPT) ∧
      blacklist.Nodup ∧
      blacklist.Pairwise (Before after calls.length) ∧
      (∀ c, (blacklistWrite in4Pton blacklist c).1 < 0 →
        (blacklistWrite in4Pton blacklist c).2 = blacklist) ∧
      (∀ c ip, in4Pton c.ipStr ≠ some ip →
        (ip ∈ (blacklistWrite in4Pton blacklist c).2 ↔ ip ∈ blacklist)) := by
  intro after blacklist
  have hl : blacklist.Nodup := nodup_blacklistAfter calls
  refine ⟨fun ipHeader => ?_, fun skb hskb => ?_, hl, ?_, fun c hneg => ?_, fun c ip hip => ?_⟩
  · rw [hookFuncIn_eq_drop]
    simp only [Option.bind_some, Option.some.injEq, exists_eq_left']
    exact mem_blacklistAfter
  · rcases skb with - | ⟨- | ipHeader⟩
    · rfl
    · rfl
    · cases hskb
  · have hstep : ∀ k < calls.length, Evolves (after k) (after (k + 1)) := by
      intro k hk
      have htake : calls.take (k + 1) = calls.take k ++ [calls[k]] := by simp
      have hafter : after (k + 1) = (blacklistWrite in4Pton (after k) calls[k]).2 := by
        simp only [after, htake, blacklistAfter, history_concat]
      rw [hafter]
      exact evolves_blacklistWrite (nodup_blacklistAfter _) _
    have h := (OrderedSet.pairwise_before rfl hstep).2
    rwa [show after calls.length = blacklist by simp [after, blacklist]] at h
  · rcases blacklistWrite_spec hl c with ⟨-, -, hsame⟩ | ⟨cmd, hpos, -⟩
    · exact hsame
    · omega
  · rcases blacklistWrite_spec hl c with ⟨-, -, hsame⟩ | ⟨cmd, -, -, hname, hset⟩
    · rw [hsame]
    · rw [hset]
      exact OrderedSet.mem_apply fun h => hip (h ▸ hname)

end EltexPractice.Netfilter
