import EltexPractice.Foundations.LinkedList
import EltexPractice.Netfilter.Listing

/-!
# The nodes of the blacklist

`nf.c` below the list of addresses: `blacklist_ips` is a ring of `struct ip_node`, each from
`kmalloc` until `kfree`. A critical section is a loop over this ring; `Loop.turn` is one pass of
it, with every access to the memory, and has no result when an access hits a node that is not
allocated.

* `Loop.turn_spec`: on a ring that holds the addresses of the blacklist a pass goes on, or ends the
  section with the result and the blacklist of the whole call (`Work.effect`).
* `clearTurn_spec`: the same for the loop of `cleanup_main`.
-/

namespace EltexPractice.Netfilter

open CString LinkedList

/-- The nodes, by their addresses in memory. -/
abbrev IpHeap := Heap ℕ Addr

abbrev IpPtr := Ptr ℕ

inductive Result
  | wrote (ret : ℤ)
  | read (ret : ℤ) (copied : List UInt8) (ppos : ℕ)
  | action (action : Verdict)

/-! ## Critical sections -/

/-- A critical section, with the variables it uses. -/
inductive Work
  /-- `blacklist_write` with `+`: `new_node` holds `ip`. -/
  | add (count newNode : ℕ) (ip : Addr)
  /-- `blacklist_write` with `-`. -/
  | remove (count : ℕ) (ip : Addr)
  | hook (daddr : Addr)
  | read (count ppos : ℕ)

/-- The loop of a section at the beginning of a pass. -/
inductive Loop
  | add (count newNode : ℕ) (ip : Addr) (entry : IpPtr)
  | remove (count : ℕ) (ip : Addr) (entry tmp : IpPtr)
  | hook (daddr : Addr) (entry : IpPtr)
  | read (count ppos : ℕ) (kbuf : List UInt8) (entry : IpPtr)

def Loop.work : Loop → Work
  | .add count newNode ip _ => .add count newNode ip
  | .remove count ip _ _ => .remove count ip
  | .hook daddr _ => .hook daddr
  | .read count ppos _ _ => .read count ppos

/-- The node that the call has allocated and has not linked yet. -/
def Work.newNode : Work → Option (ℕ × Addr)
  | .add _ newNode ip => some (newNode, ip)
  | _ => none

/-- The end of `blacklist_read`, behind the loop. -/
def readResult (count ppos : ℕ) (kbuf : List UInt8) : Result :=
  let (copied, ppos) := simpleReadFromBuffer count ppos kbuf
  .read copied.length copied ppos

/-- The start of the loop: `list_for_each_entry`, and `list_for_each_entry_safe` for `-`. -/
def Work.enter (h : IpHeap) : Work → Option Loop
  | .add count newNode ip => (h.next .head).map fun entry => .add count newNode ip entry
  | .remove count ip =>
    (h.next .head).bind fun entry => (h.next entry).map fun tmp => .remove count ip entry tmp
  | .hook daddr => (h.next .head).map fun entry => .hook daddr entry
  | .read count ppos => (h.next .head).map fun entry => .read count ppos [] entry

/-- One pass of the loop: the section goes on, or it ends with the result of the call. The pass
that finds `&entry->list == &blacklist_ips` includes what follows the loop. -/
def Loop.turn (h : IpHeap) : Loop → Option (IpHeap × (Loop ⊕ Result))
  | .add count newNode ip entry =>
    match entry with
    | .head => (h.addTail newNode).map fun h => (h, .inr (.wrote count))
    | .node m => (h.data m).bind fun a =>
      if a = ip then (h.free newNode).map fun h => (h, .inr (.wrote count))
      else (h.next entry).map fun next => (h, .inl (.add count newNode ip next))
    | .poison => none
  | .remove count ip entry tmp =>
    match entry with
    | .head => some (h, .inr (.wrote count))
    | .node m => (h.data m).bind fun a =>
      if a = ip then
        (h.del m).bind fun h => (h.free m).map fun h => (h, .inr (.wrote count))
      else (h.next tmp).map fun next => (h, .inl (.remove count ip tmp next))
    | .poison => none
  | .hook daddr entry =>
    match entry with
    | .head => some (h, .inr (.action .NF_ACCEPT))
    | .node m => (h.data m).bind fun a =>
      if a = daddr then some (h, .inr (.action .NF_DROP))
      else (h.next entry).map fun next => (h, .inl (.hook daddr next))
    | .poison => none
  | .read count ppos kbuf entry =>
    match entry with
    | .head => some (h, .inr (readResult count ppos kbuf))
    | .node m => (h.data m).bind fun a =>
      let kbuf := kbuf ++ snprintf (4096 - kbuf.length) (line a)
      if 4096 - 32 ≤ kbuf.length then some (h, .inr (readResult count ppos kbuf))
      else (h.next entry).map fun next => (h, .inl (.read count ppos kbuf next))
    | .poison => none

/-- One pass of the loop of `cleanup_main`, with `entry` and `tmp`; without new ones it is the
last. -/
def clearTurn (h : IpHeap) (entry tmp : IpPtr) : Option (IpHeap × Option (IpPtr × IpPtr)) :=
  match entry with
  | .head => some (h, none)
  | .node m => (h.del m).bind fun h => (h.free m).bind fun h =>
    (h.next tmp).map fun next => (h, some (tmp, next))
  | .poison => none

/-! ## What a section does to the list of addresses -/

/-- The result of the section and the blacklist behind it. -/
def Work.effect (blacklist : List Addr) : Work → Result × List Addr
  | .add count _ ip =>
    (.wrote count, if blacklist.any (· == ip) then blacklist else blacklist ++ [ip])
  | .remove count ip => (.wrote count, blacklist.eraseP (· == ip))
  | .hook daddr =>
    (.action (if blacklist.any (· == daddr) then .NF_DROP else .NF_ACCEPT), blacklist)
  | .read count ppos => (readResult count ppos (render [] blacklist), blacklist)

/-- The ring `xs` holds the addresses of the blacklist. -/
structure Holds (h : IpHeap) (xs : List ℕ) (blacklist : List Addr) : Prop where
  ring : IsList h xs
  data : xs.map h.data = blacklist.map some

/-- A loop over the ring is at `entry`, behind the addresses `seen` and before `rest`. -/
def Position (h : IpHeap) (xs : List ℕ) (seen rest : List Addr) (entry : IpPtr) : Prop :=
  ∃ before behind, xs = before ++ behind ∧ before.map h.data = seen.map some ∧
    behind.map h.data = rest.map some ∧ entry = (behind.map .node).headD .head

/-- What a loop knows of the entries it has passed. -/
def Loop.Inv (h : IpHeap) (xs : List ℕ) (seen rest : List Addr) : Loop → Prop
  | .add _ _ ip entry => ip ∉ seen ∧ Position h xs seen rest entry
  | .remove _ ip entry tmp =>
    ip ∉ seen ∧ Position h xs seen rest entry ∧ h.next entry = some tmp
  | .hook daddr entry => daddr ∉ seen ∧ Position h xs seen rest entry
  | .read _ _ kbuf entry =>
    render kbuf rest = render [] (seen ++ rest) ∧ Position h xs seen rest entry

/-- What a section leaves behind: the ring and the result that its effect asks for, and the other
nodes as they were. -/
structure Work.Ends (w : Work) (h : IpHeap) (xs : List ℕ) (blacklist : List Addr) (h' : IpHeap)
    (xs' : List ℕ) (r : Result) : Prop where
  result : r = (w.effect blacklist).1
  holds : Holds h' xs' (w.effect blacklist).2
  /-- A node that is neither in the ring nor new stays as it is. -/
  frame : ∀ n, n ∉ xs → (∀ ip, w.newNode ≠ some (n, ip)) → n ∉ xs' ∧ h'.data n = h.data n
  /-- A node that the section has met is in the ring afterwards, or freed. -/
  live : ∀ n, n ∈ xs ∨ (∃ ip, w.newNode = some (n, ip)) → (h'.data n).isSome → n ∈ xs'

variable {h : IpHeap} {xs : List ℕ} {blacklist seen rest : List Addr} {entry : IpPtr}

theorem Holds.position_first (hh : Holds h xs blacklist) :
    ∃ entry, h.next .head = some entry ∧ Position h xs [] blacklist entry :=
  ⟨_, hh.ring.forward.first, [], xs, rfl, rfl, hh.data, rfl⟩

/-- The entry of a position: the head behind the last address, or the node of the next one. -/
theorem Holds.position_cases (hh : Holds h xs blacklist) (hp : Position h xs seen rest entry) :
    entry = .head ∧ rest = [] ∨
      ∃ m a rest', entry = .node m ∧ rest = a :: rest' ∧ h.data m = some a ∧
        (∃ before behind, xs = before ++ m :: behind ∧ before.map h.data = seen.map some ∧
          behind.map h.data = rest'.map some ∧
          h.next entry = some ((behind.map .node).headD .head)) ∧
        ∃ next, h.next entry = some next ∧ Position h xs (seen ++ [a]) rest' next := by
  obtain ⟨before, behind, rfl, hseen, hrest, rfl⟩ := hp
  cases behind with
  | nil => exact Or.inl ⟨rfl, by simpa using hrest.symm⟩
  | cons m behind =>
    cases rest with
    | nil => cases hrest
    | cons a rest =>
      obtain ⟨ha, hrest⟩ := List.cons.inj hrest
      have hnext := hh.ring.next_split
      refine Or.inr ⟨m, a, rest, rfl, rfl, ha, ⟨before, behind, rfl, hseen, hrest, hnext⟩,
        _, hnext, before ++ [m], behind, by simp, ?_, hrest, rfl⟩
      rw [List.map_append, hseen, List.map_append, List.map_singleton, ha, List.map_singleton]

/-- A loop can follow `tmp`. -/
theorem Position.isSome_next (hh : Holds h xs blacklist) (hp : Position h xs seen rest entry) :
    (h.next entry).isSome := by
  rcases hh.position_cases hp with ⟨rfl, -⟩ | ⟨m, a, rest', rfl, -, -, -, next, hnext, -⟩
  · exact hh.ring.isSome_next List.mem_cons_self
  · rw [hnext]
    rfl

theorem Position.mem (hp : Position h xs seen rest entry) :
    entry ∈ (.head : IpPtr) :: xs.map .node := by
  obtain ⟨before, behind, rfl, -, -, rfl⟩ := hp
  cases behind with
  | nil => exact List.mem_cons_self
  | cons m behind => simp

section Frame

variable {h' : IpHeap} {tmp : IpPtr}

theorem Position.frame (hp : Position h xs seen rest entry)
    (hdata : ∀ n ∈ xs, h'.data n = h.data n) : Position h' xs seen rest entry := by
  obtain ⟨before, behind, rfl, hseen, hrest, rfl⟩ := hp
  refine ⟨before, behind, rfl, ?_, ?_, rfl⟩
  · rw [← hseen]
    exact List.map_congr_left fun n hn => hdata n (List.mem_append_left _ hn)
  · rw [← hrest]
    exact List.map_congr_left fun n hn => hdata n (List.mem_append_right _ hn)

/-- A loop does not notice changes outside the ring. -/
theorem Loop.Inv.frame {l : Loop} (hl : l.Inv h xs seen rest)
    (hnext : ∀ p ∈ (.head : IpPtr) :: xs.map .node, h'.next p = h.next p)
    (hdata : ∀ n ∈ xs, h'.data n = h.data n) : l.Inv h' xs seen rest := by
  cases l with
  | add count newNode ip entry => exact ⟨hl.1, hl.2.frame hdata⟩
  | remove count ip entry tmp =>
    exact ⟨hl.1, hl.2.1.frame hdata, (hnext entry hl.2.1.mem).trans hl.2.2⟩
  | hook daddr entry => exact ⟨hl.1, hl.2.frame hdata⟩
  | read count ppos kbuf entry => exact ⟨hl.1, hl.2.frame hdata⟩

end Frame

/-! ## One pass -/

theorem any_eq_false {ip : Addr} (h : ip ∉ blacklist) : blacklist.any (· == ip) = false := by
  rw [List.any_eq_false]
  rintro x hx heq
  obtain rfl := eq_of_beq heq
  exact h hx

theorem eraseP_of_notMem {ip : Addr} (h : ip ∉ blacklist) :
    blacklist.eraseP (· == ip) = blacklist := by
  rw [← List.erase_eq_eraseP', List.erase_of_not_mem h]

theorem eraseP_middle {ip : Addr} (h : ip ∉ seen) :
    (seen ++ ip :: rest).eraseP (· == ip) = seen ++ rest := by
  rw [← List.erase_eq_eraseP', List.erase_append_right _ h, List.erase_cons_head]

/-- A section that leaves the memory as it is. -/
theorem Work.ends_same {w : Work} {r : Result} (hh : Holds h xs blacklist) (hnew : w.newNode = none)
    (heffect : w.effect blacklist = (r, blacklist)) : w.Ends h xs blacklist h xs r where
  result := by rw [heffect]
  holds := by rwa [heffect]
  frame n hn _ := ⟨hn, rfl⟩
  live n hn _ := by
    rcases hn with hn | ⟨ip, hn⟩
    · exact hn
    · rw [hnew] at hn
      cases hn

/-- The ring with the new node at its end. -/
theorem ends_addTail (count : ℕ) {newNode : ℕ} {ip : Addr} (hh : Holds h xs blacklist)
    (hnew : newNode ∉ xs) (hdata : h.data newNode = some ip) (hip : ip ∉ blacklist) :
    ∃ h', h.addTail newNode = some h' ∧
      (Work.add count newNode ip).Ends h xs blacklist h' (xs ++ [newNode]) (.wrote count) := by
  obtain ⟨h', hadd, hring, hsame⟩ := hh.ring.addTail hnew (Option.isSome_of_eq_some hdata)
  have heffect : (Work.add count newNode ip).effect blacklist =
      (.wrote count, blacklist ++ [ip]) := by
    rw [Work.effect, any_eq_false hip, if_neg Bool.false_ne_true]
  refine ⟨h', hadd, by rw [heffect], ?_, fun n hn hne => ⟨?_, by rw [hsame]⟩, fun n hn _ => ?_⟩
  · rw [heffect]
    refine ⟨hring, ?_⟩
    rw [hsame, List.map_append, hh.data, List.map_append, List.map_singleton, hdata,
      List.map_singleton]
  · simp only [List.mem_append, List.mem_singleton, not_or]
    refine ⟨hn, ?_⟩
    rintro rfl
    exact hne ip rfl
  · rcases hn with hn | ⟨ip, hn⟩
    · exact List.mem_append_left _ hn
    · cases hn
      simp

/-- The new node is not needed. -/
theorem ends_free (count : ℕ) {newNode : ℕ} {ip : Addr} (hh : Holds h xs blacklist)
    (hnew : newNode ∉ xs) (hdata : h.data newNode = some ip) (hip : ip ∈ blacklist) :
    ∃ h', h.free newNode = some h' ∧
      (Work.add count newNode ip).Ends h xs blacklist h' xs (.wrote count) := by
  obtain ⟨h', hfree, hring, hsame, -⟩ := hh.ring.free hnew (Option.isSome_of_eq_some hdata)
  have heffect : (Work.add count newNode ip).effect blacklist = (.wrote count, blacklist) := by
    rw [Work.effect, if_pos (by simpa using hip)]
  refine ⟨h', hfree, by rw [heffect], ?_, fun n hn hne => ⟨hn, ?_⟩, fun n hn hlive => ?_⟩
  · rw [heffect]
    refine ⟨hring, ?_⟩
    rw [← hh.data]
    refine List.map_congr_left fun n hn => ?_
    have hne : n ≠ newNode := by
      rintro rfl
      exact hnew hn
    rw [hsame, Function.update_of_ne hne]
  · have hne : n ≠ newNode := by
      rintro rfl
      exact hne ip rfl
    rw [hsame, Function.update_of_ne hne]
  · rcases hn with hn | ⟨ip, hn⟩
    · exact hn
    · cases hn
      rw [hsame, Function.update_self] at hlive
      cases hlive

/-- A node of the ring is deleted and freed. -/
theorem Holds.del_free {before behind : List ℕ} {m : ℕ} {a : Addr}
    (hh : Holds h (before ++ m :: behind) (seen ++ a :: rest))
    (hseen : before.map h.data = seen.map some) (hrest : behind.map h.data = rest.map some) :
    ∃ h₁ h', h.del m = some h₁ ∧ h₁.free m = some h' ∧
      Holds h' (before ++ behind) (seen ++ rest) ∧ h'.data = Function.update h.data m none := by
  obtain ⟨hm, -⟩ := List.nodup_cons.1 (List.nodup_middle.1 hh.ring.nodup)
  have hsome : (h.data m).isSome := hh.ring.isSome_data (by simp)
  obtain ⟨h₁, hdel, hring₁, hsame₁⟩ := hh.ring.del
  obtain ⟨h', hfree, hring, hsame, -⟩ := hring₁.free hm (by rw [hsame₁]; exact hsome)
  rw [hsame₁] at hsame
  refine ⟨h₁, h', hdel, hfree, ⟨hring, ?_⟩, hsame⟩
  rw [List.map_append (f := some), ← hseen, ← hrest, ← List.map_append]
  refine List.map_congr_left fun n hn => ?_
  have hne : n ≠ m := by
    rintro rfl
    exact hm hn
  rw [hsame, Function.update_of_ne hne]

/-- The first node with the address is deleted. -/
theorem ends_del (count : ℕ) {before behind : List ℕ} {m : ℕ} {ip : Addr}
    (hh : Holds h (before ++ m :: behind) (seen ++ ip :: rest)) (hip : ip ∉ seen)
    (hseen : before.map h.data = seen.map some) (hrest : behind.map h.data = rest.map some) :
    ∃ h₁ h', h.del m = some h₁ ∧ h₁.free m = some h' ∧
      (Work.remove count ip).Ends h (before ++ m :: behind) (seen ++ ip :: rest) h'
        (before ++ behind) (.wrote count) := by
  obtain ⟨h₁, h', hdel, hfree, hholds, hsame⟩ := hh.del_free hseen hrest
  have heffect : (Work.remove count ip).effect (seen ++ ip :: rest) =
      (.wrote count, seen ++ rest) := by
    rw [Work.effect, eraseP_middle hip]
  refine ⟨h₁, h', hdel, hfree, by rw [heffect], by rwa [heffect], fun n hn _ => ?_,
    fun n hn hlive => ?_⟩
  · simp only [List.mem_append, List.mem_cons, not_or] at hn ⊢
    obtain ⟨hbefore, hne, hbehind⟩ := hn
    exact ⟨⟨hbefore, hbehind⟩, by rw [hsame, Function.update_of_ne hne]⟩
  · have hne : n ≠ m := by
      rintro rfl
      rw [hsame, Function.update_self] at hlive
      cases hlive
    rcases hn with hn | ⟨ip, hn⟩
    · simpa [hne] using hn
    · cases hn

/-- **One pass of a section**: it goes on behind the next address, or it ends. -/
theorem Loop.turn_spec {l : Loop} (hh : Holds h xs (seen ++ rest)) (hl : l.Inv h xs seen rest)
    (hnew : ∀ n ip, l.work.newNode = some (n, ip) → n ∉ xs ∧ h.data n = some ip) :
    (∃ a rest' l', rest = a :: rest' ∧ l.turn h = some (h, .inl l') ∧ l'.work = l.work ∧
        l'.Inv h xs (seen ++ [a]) rest') ∨
      ∃ h' xs' r, l.turn h = some (h', .inr r) ∧ l.work.Ends h xs (seen ++ rest) h' xs' r := by
  cases l with
  | add count newNode ip entry =>
    obtain ⟨hip, hp⟩ := hl
    obtain ⟨hnotMem, hdata⟩ := hnew newNode ip rfl
    rcases hh.position_cases hp with ⟨rfl, rfl⟩ | ⟨m, a, rest', rfl, rfl, ha, -, next, hnext, hp'⟩
    · obtain ⟨h', hadd, hends⟩ := ends_addTail count hh hnotMem hdata (by simpa using hip)
      exact Or.inr ⟨h', _, _, by simp only [turn, hadd, Option.map_some], hends⟩
    · by_cases heq : a = ip
      · obtain ⟨h', hfree, hends⟩ :=
          ends_free count hh hnotMem hdata (by simp [heq])
        refine Or.inr ⟨h', _, _, ?_, hends⟩
        simp only [turn, ha, Option.bind_some, if_pos heq, hfree, Option.map_some]
      · refine Or.inl ⟨a, rest', .add count newNode ip next, rfl, ?_, rfl, ?_, hp'⟩
        · simp only [turn, ha, Option.bind_some, if_neg heq, hnext, Option.map_some]
        · simpa [hip] using Ne.symm heq
  | remove count ip entry tmp =>
    obtain ⟨hip, hp, htmp⟩ := hl
    rcases hh.position_cases hp with ⟨rfl, rfl⟩ |
      ⟨m, a, rest', rfl, rfl, ha, ⟨before, behind, rfl, hseen, hrest, -⟩, next, hnext, hp'⟩
    · refine Or.inr ⟨h, xs, _, rfl, Work.ends_same hh rfl ?_⟩
      rw [work, Work.effect, List.append_nil, eraseP_of_notMem hip]
    · by_cases heq : a = ip
      · subst heq
        obtain ⟨h₁, h', hdel, hfree, hends⟩ := ends_del count hh hip hseen hrest
        refine Or.inr ⟨h', _, _, ?_, hends⟩
        simp only [turn, ha, Option.bind_some, if_true, hdel, hfree, Option.map_some]
      · -- `tmp` is the next entry, and the one behind it can be read
        obtain rfl := Option.some.inj (hnext.symm.trans htmp)
        obtain ⟨after, hafter⟩ := Option.isSome_iff_exists.1 (hp'.isSome_next (by simpa using hh))
        refine Or.inl ⟨a, rest', .remove count ip next after, rfl, ?_, rfl, ?_, hp', hafter⟩
        · simp only [turn, ha, Option.bind_some, if_neg heq, hafter, Option.map_some]
        · simpa [hip] using Ne.symm heq
  | hook daddr entry =>
    obtain ⟨hip, hp⟩ := hl
    rcases hh.position_cases hp with ⟨rfl, rfl⟩ | ⟨m, a, rest', rfl, rfl, ha, -, next, hnext, hp'⟩
    · refine Or.inr ⟨h, xs, _, rfl, Work.ends_same hh rfl ?_⟩
      rw [work, Work.effect, List.append_nil, any_eq_false hip, if_neg Bool.false_ne_true]
    · by_cases heq : a = daddr
      · refine Or.inr ⟨h, xs, _, ?_, Work.ends_same (r := .action .NF_DROP) hh rfl ?_⟩
        · simp only [turn, ha, Option.bind_some, if_pos heq]
        · rw [work, Work.effect, if_pos (by simp [heq])]
      · refine Or.inl ⟨a, rest', .hook daddr next, rfl, ?_, rfl, ?_, hp'⟩
        · simp only [turn, ha, Option.bind_some, if_neg heq, hnext, Option.map_some]
        · simpa [hip] using Ne.symm heq
  | read count ppos kbuf entry =>
    obtain ⟨hkbuf, hp⟩ := hl
    rcases hh.position_cases hp with ⟨rfl, rfl⟩ | ⟨m, a, rest', rfl, rfl, ha, -, next, hnext, hp'⟩
    · refine Or.inr ⟨h, xs, _, rfl, Work.ends_same hh rfl ?_⟩
      rw [work, Work.effect, ← hkbuf, render]
    · by_cases hfull : 4096 - 32 ≤ (kbuf ++ snprintf (4096 - kbuf.length) (line a)).length
      · refine Or.inr ⟨h, xs, _, ?_, Work.ends_same
          (r := readResult count ppos (kbuf ++ snprintf (4096 - kbuf.length) (line a))) hh rfl ?_⟩
        · simp only [turn, ha, Option.bind_some, if_pos hfull]
        · rw [work, Work.effect, ← hkbuf, render, if_pos hfull]
      · refine Or.inl ⟨a, rest',
          .read count ppos (kbuf ++ snprintf (4096 - kbuf.length) (line a)) next, rfl, ?_, rfl, ?_,
          hp'⟩
        · simp only [turn, ha, Option.bind_some, if_neg hfull, hnext, Option.map_some]
        · rw [List.append_assoc, List.singleton_append, ← hkbuf, render, if_neg hfull]

/-- The start of a section. -/
theorem Work.enter_spec (w : Work) (hh : Holds h xs blacklist) :
    ∃ l, w.enter h = some l ∧ l.work = w ∧ l.Inv h xs [] blacklist := by
  obtain ⟨entry, hentry, hp⟩ := hh.position_first
  cases w with
  | add count newNode ip =>
    refine ⟨.add count newNode ip entry, ?_, rfl, List.not_mem_nil, hp⟩
    rw [enter, hentry, Option.map_some]
  | remove count ip =>
    obtain ⟨tmp, htmp⟩ := Option.isSome_iff_exists.1 (hp.isSome_next hh)
    refine ⟨.remove count ip entry tmp, ?_, rfl, List.not_mem_nil, hp, htmp⟩
    rw [enter, hentry, Option.bind_some, htmp, Option.map_some]
  | hook daddr =>
    refine ⟨.hook daddr entry, ?_, rfl, List.not_mem_nil, hp⟩
    rw [enter, hentry, Option.map_some]
  | read count ppos =>
    refine ⟨.read count ppos [] entry, ?_, rfl, rfl, hp⟩
    rw [enter, hentry, Option.map_some]

/-! ## Unloading -/

/-- The loop of `cleanup_main` is at the first node that is left. -/
def ClearInv (h : IpHeap) (xs : List ℕ) (blacklist : List Addr) (entry tmp : IpPtr) : Prop :=
  Position h xs [] blacklist entry ∧ h.next entry = some tmp

theorem ClearInv.frame {h' : IpHeap} {tmp : IpPtr} (hc : ClearInv h xs blacklist entry tmp)
    (hnext : ∀ p ∈ (.head : IpPtr) :: xs.map .node, h'.next p = h.next p)
    (hdata : ∀ n ∈ xs, h'.data n = h.data n) : ClearInv h' xs blacklist entry tmp :=
  ⟨hc.1.frame hdata, (hnext entry hc.1.mem).trans hc.2⟩

/-- **One pass of `cleanup_main`**: it frees the first node, or there is none. -/
theorem clearTurn_spec {tmp : IpPtr} (hh : Holds h xs blacklist)
    (hinv : ClearInv h xs blacklist entry tmp) :
    xs = [] ∧ blacklist = [] ∧ clearTurn h entry tmp = some (h, none) ∨
      ∃ m xs' a rest h' next, xs = m :: xs' ∧ blacklist = a :: rest ∧
        clearTurn h entry tmp = some (h', some (tmp, next)) ∧ Holds h' xs' rest ∧
        ClearInv h' xs' rest tmp next ∧ h'.data = Function.update h.data m none := by
  obtain ⟨hp, htmp⟩ := hinv
  rcases hh.position_cases hp with ⟨rfl, rfl⟩ |
    ⟨m, a, rest, rfl, rfl, ha, ⟨before, behind, rfl, hbefore, hbehind, hnext⟩, -⟩
  · have hxs : xs = [] := by simpa using hh.data
    exact Or.inl ⟨hxs, rfl, rfl⟩
  · obtain rfl : before = [] := by simpa using hbefore
    have hring : Holds h ([] ++ m :: behind) ([] ++ a :: rest) := hh
    obtain ⟨h₁, h', hdel, hfree, hholds, hsame⟩ := hring.del_free hbefore hbehind
    obtain rfl := Option.some.inj (htmp.symm.trans hnext)
    have hp' : Position h' behind [] rest ((behind.map .node).headD .head) :=
      ⟨[], behind, rfl, rfl, hholds.data, rfl⟩
    obtain ⟨next, hnext'⟩ := Option.isSome_iff_exists.1 (hp'.isSome_next hholds)
    refine Or.inr ⟨m, behind, a, rest, h', next, rfl, rfl, ?_, hholds, ⟨hp', hnext'⟩, hsame⟩
    simp only [clearTurn, hdel, Option.bind_some, hfree, hnext', Option.map_some]

end EltexPractice.Netfilter
