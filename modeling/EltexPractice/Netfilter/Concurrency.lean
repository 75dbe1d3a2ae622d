import EltexPractice.Foundations.Schedule
import EltexPractice.Netfilter.Nodes

/-!
# The netfilter module under concurrent calls

Any number of calls of `blacklist_write`, `blacklist_read` and `hook_func_in` run at the same time,
from `init_main` until `cleanup_main`. A turn is one pass of a loop over the ring of nodes, or one
call into the kernel; `kmalloc` may return any address that is not in use. `spin_lock` waits until
the lock is free, `proc_remove` until no read or write of the file is in progress (the kernel counts
them), and a call of the hook that has begun may still run behind `nf_unregister_net_hook`.

`blacklist_lock` is taken by plain `spin_lock`, also by the hook, which runs in softirq context too.
A softirq that comes on top of the holder of the lock, on its processor, waits for a holder that
gets no turn. This is outside the model, where each thread has its turns whatever the others do.

* `State.Inv` says what holds between two turns.
* `begin_spec`: what a call does on its own is what is left of it behind its beginning.
* `Change.inv`: a turn of one call keeps the invariant for all.
-/

namespace EltexPractice.Netfilter

open CString LinkedList

/-! ## The system -/

/-- A call of an entry point, with what fails in it. -/
inductive Call
  | blacklistWrite (c : WriteCall)
  | blacklistRead (c : ReadCall) (ppos : ℕ)
  | hookFuncIn (skb : Option SkBuff)

/-- The call uses `/proc/ip_blacklist`. -/
def Call.usesFile : Call → Bool
  | .hookFuncIn _ => false
  | _ => true

/-- Where a call is. -/
inductive Pc
  | start
  /-- `blacklist_write` with `+`, before `kmalloc`. -/
  | kmalloc (count : ℕ) (ip : Addr) (fails : Bool)
  /-- It returns without the lock. -/
  | answer (r : Result)
  | spinLock (w : Work)
  | loop (l : Loop)
  | spinUnlock (r : Result)
  | returned (r : Result)
  /-- An access has hit memory that is not allocated. -/
  | oops

/-- Where `init_main` or `cleanup_main` is. -/
inductive Main
  | unloaded
  /-- `init_main`, behind `proc_create`. -/
  | procCreated
  /-- `init_main`, before `proc_remove` as the hook was not registered. -/
  | procRemove (ret : ℤ)
  | refused (ret : ℤ)
  | live
  /-- `cleanup_main`, before `proc_remove`. -/
  | hookUnregistered
  | spinLock
  | loop (entry tmp : IpPtr)
  | spinUnlock
  | gone
  | oops

/-- Who holds `blacklist_lock`. -/
inductive Thread
  | call (t : ℕ)
  | main
  deriving DecidableEq

/-- What has taken effect: a call with its result, or the deletion of an entry by
`cleanup_main`. -/
inductive Event
  | call (t : ℕ) (c : Call) (r : Result)
  | freed

structure State where
  heap : IpHeap
  lock : Option Thread
  /-- The calls in the order in which they began. -/
  calls : List (Call × Pc)
  main : Main
  history : List Event

def State.init : State := ⟨Heap.init ℕ Addr, none, [], .unloaded, []⟩

section Step

variable (in4Pton : List UInt8 → Option Addr)

/-- The part of a call before the lock and before `kmalloc`. -/
def Call.begin : Call → Pc
  | .blacklistWrite c =>
    if c.copyFails then .answer (.wrote (-EFAULT))
    else if c.kbuf.length < 2 then .answer (.wrote (-EINVAL))
    else match in4Pton c.ipStr with
      | none => .answer (.wrote (-EINVAL))
      | some ip =>
        if c.action = 43 then .kmalloc c.buf.length ip c.kmallocFails
        else if c.action = 45 then .spinLock (.remove c.buf.length ip)
        else .answer (.wrote (-EINVAL))
  | .blacklistRead c ppos =>
    if c.kmallocFails then .answer (.read (-ENOMEM) [] ppos)
    else .spinLock (.read c.count ppos)
  | .hookFuncIn skb =>
    match skb with
    | none => .answer (.action .NF_ACCEPT)
    | some skb =>
      match skb.networkHeader with
      | none => .answer (.action .NF_ACCEPT)
      | some ipHeader => .spinLock (.hook ipHeader.daddr)

/-- A call gets to another place. -/
def State.goto (s : State) (t : ℕ) (c : Call) (pc : Pc) : State :=
  { s with calls := s.calls.set t (c, pc) }

/-- A call that has been carried out. -/
def State.record (s : State) (e : Event) : State := { s with history := s.history ++ [e] }

/-- One turn of the call `t`, where `kmalloc` returns `n`. -/
def State.turn (s : State) (t n : ℕ) (c : Call) : Pc → Option State
  | .start => some (s.goto t c (c.begin in4Pton))
  | .kmalloc count ip fails =>
    if fails then some (s.goto t c (.answer (.wrote (-ENOMEM))))
    else (s.heap.alloc n ip).map fun heap =>
      { s.goto t c (.spinLock (.add count n ip)) with heap }
  | .answer r => some ((s.goto t c (.returned r)).record (.call t c r))
  | .spinLock w =>
    if s.lock = none then
      match w.enter s.heap with
      | none => some (s.goto t c .oops)
      | some l => some { s.goto t c (.loop l) with lock := some (.call t) }
    else none
  | .loop l =>
    match l.turn s.heap with
    | none => some (s.goto t c .oops)
    | some (heap, .inl l) => some { s.goto t c (.loop l) with heap }
    | some (heap, .inr r) => some ({ s.goto t c (.spinUnlock r) with heap }.record (.call t c r))
  | .spinUnlock r => some { s.goto t c (.returned r) with lock := none }
  | .returned _ => none
  | .oops => none

def Pc.isReturned : Pc → Bool
  | .returned _ => true
  | _ => false

/-- A read or write of the file is in progress. -/
def State.inUse (s : State) : Bool := s.calls.any fun x => x.1.usesFile && !x.2.isReturned

/-- The next step of `init_main` when the hook was not registered, or of `cleanup_main`. -/
def State.mainTurn (s : State) : Option State :=
  match s.main with
  | .procRemove ret => if s.inUse then none else some { s with main := .refused ret }
  | .live => some { s with main := .hookUnregistered }
  | .hookUnregistered => if s.inUse then none else some { s with main := .spinLock }
  | .spinLock =>
    if s.lock = none then
      match (s.heap.next .head).bind fun entry =>
          (s.heap.next entry).map fun tmp => (entry, tmp) with
      | none => some { s with main := .oops }
      | some (entry, tmp) => some { s with main := .loop entry tmp, lock := some .main }
    else none
  | .loop entry tmp =>
    match clearTurn s.heap entry tmp with
    | none => some { s with main := .oops }
    | some (heap, some (entry, tmp)) =>
      some ({ s with heap, main := .loop entry tmp }.record .freed)
    | some (heap, none) => some { s with heap, main := .spinUnlock }
  | .spinUnlock => some { s with main := .gone, lock := none }
  | _ => none

/-- A call can begin: the file exists, or the hook is registered. -/
def Main.offers (c : Call) : Main → Bool
  | .procCreated => c.usesFile
  | .live => true
  | .hookUnregistered => c.usesFile
  | _ => false

inductive Action
  /-- `init_main` calls `proc_create`. -/
  | procCreate (fails : Bool)
  /-- `init_main` calls `nf_register_net_hook`, which returns `ret`. -/
  | registerHook (ret : ℤ)
  | main
  | call (c : Call)
  | turn (t n : ℕ)

def step (s : State) : Action → Option State
  | .procCreate fails =>
    match s.main with
    | .unloaded => some { s with main := if fails then .refused (-ENOMEM) else .procCreated }
    | _ => none
  | .registerHook ret =>
    match s.main with
    | .procCreated => some { s with main := if ret = 0 then .live else .procRemove ret }
    | _ => none
  | .main => s.mainTurn
  | .call c => if s.main.offers c then some { s with calls := s.calls ++ [(c, .start)] } else none
  | .turn t n =>
    match s.calls[t]? with
    | none => none
    | some (c, pc) => s.turn in4Pton t n c pc

/-! ## The same calls one after the other -/

/-- The result of a call on its own, and the blacklist behind it. -/
def Call.perform (blacklist : List Addr) : Call → Result × List Addr
  | .blacklistWrite c =>
    let (ret, blacklist) := Netfilter.blacklistWrite in4Pton blacklist c
    (.wrote ret, blacklist)
  | .blacklistRead c ppos =>
    let (ret, copied, ppos) := Netfilter.blacklistRead blacklist c ppos
    (.read ret copied ppos, blacklist)
  | .hookFuncIn skb => (.action (Netfilter.hookFuncIn blacklist skb), blacklist)

def Event.apply (blacklist : List Addr) : Event → List Addr
  | .call _ c _ => (c.perform in4Pton blacklist).2
  | .freed => blacklist.tail

/-- The blacklist behind a history, which starts with the empty list. -/
def blacklistOf (history : List Event) : List Addr := history.foldl (Event.apply in4Pton) []

/-- Each call has the result that it has on its own, on the blacklist at its place. -/
def Legal (history : List Event) : Prop :=
  ∀ before t c r, before ++ [.call t c r] <+: history →
    r = (c.perform in4Pton (blacklistOf in4Pton before)).1

end Step

/-- The entries of the call `t` in a history. -/
def recordsOf (t : ℕ) (history : List Event) : List (Call × Result) :=
  history.filterMap fun e => match e with
    | .call t' c r => if t' = t then some (c, r) else none
    | .freed => none

/-- The call has taken effect with a result. -/
def Pc.result : Pc → Option Result
  | .spinUnlock r => some r
  | .returned r => some r
  | _ => none

/-! ## The invariant -/

/-- The node that a call has allocated and has not linked yet. -/
def Pc.newNode : Pc → Option (ℕ × Addr)
  | .spinLock w => w.newNode
  | .loop l => l.work.newNode
  | _ => none

/-- The call holds the lock. -/
def Pc.Locked : Pc → Prop
  | .loop _ => True
  | .spinUnlock _ => True
  | _ => False

/-- What the rest of a call does is what the call does on its own. -/
def Pc.Means (in4Pton : List UInt8 → Option Addr) (c : Call) : Pc → Prop
  | .start => True
  | .kmalloc count ip fails => ∀ blacklist, c.perform in4Pton blacklist =
      if fails then (.wrote (-ENOMEM), blacklist) else (Work.add count 0 ip).effect blacklist
  | .answer r => ∀ blacklist, c.perform in4Pton blacklist = (r, blacklist)
  | .spinLock w => ∀ blacklist, c.perform in4Pton blacklist = w.effect blacklist
  | .loop l => ∀ blacklist, c.perform in4Pton blacklist = l.work.effect blacklist
  | .spinUnlock _ => True
  | .returned _ => True
  | .oops => False

def Main.Locked : Main → Prop
  | .loop _ _ => True
  | .spinUnlock => True
  | _ => False

/-- No read or write of the file can be in progress. -/
def Main.Closed : Main → Prop
  | .procCreated => False
  | .procRemove _ => False
  | .live => False
  | .hookUnregistered => False
  | _ => True

/-- What `cleanup_main` knows of the ring. -/
def Main.Inv (h : IpHeap) (xs : List ℕ) (blacklist : List Addr) : Main → Prop
  | .loop entry tmp => ClearInv h xs blacklist entry tmp
  | .spinUnlock => blacklist = []
  | .gone => blacklist = []
  | .oops => False
  | _ => True

/-- What holds between two turns, with the nodes `xs` in the ring. -/
structure State.Inv (in4Pton : List UInt8 → Option Addr) (s : State) (xs : List ℕ) : Prop where
  holds : Holds s.heap xs (blacklistOf in4Pton s.history)
  legal : Legal in4Pton s.history
  means : ∀ (t : ℕ) (c : Call) (pc : Pc), s.calls[t]? = some (c, pc) → pc.Means in4Pton c
  locked : ∀ (t : ℕ) (c : Call) (pc : Pc), s.calls[t]? = some (c, pc) →
    (pc.Locked ↔ s.lock = some (.call t))
  holder : ∀ t : ℕ, s.lock = some (.call t) → t < s.calls.length
  mainLocked : s.main.Locked ↔ s.lock = some .main
  position : ∀ (t : ℕ) (c : Call) (l : Loop), s.calls[t]? = some (c, .loop l) →
    ∃ seen rest, blacklistOf in4Pton s.history = seen ++ rest ∧ l.Inv s.heap xs seen rest
  mainInv : s.main.Inv s.heap xs (blacklistOf in4Pton s.history)
  own : ∀ (t : ℕ) (c : Call) (pc : Pc) (n : ℕ) (ip : Addr), s.calls[t]? = some (c, pc) →
    pc.newNode = some (n, ip) → n ∉ xs ∧ s.heap.data n = some ip
  ownUnique : ∀ (t t' : ℕ) (c c' : Call) (pc pc' : Pc) (n : ℕ) (ip ip' : Addr),
    s.calls[t]? = some (c, pc) → s.calls[t']? = some (c', pc') → pc.newNode = some (n, ip) →
    pc'.newNode = some (n, ip') → t = t'
  live : ∀ n, (s.heap.data n).isSome → n ∈ xs ∨
    ∃ (t : ℕ) (c : Call) (pc : Pc) (ip : Addr), s.calls[t]? = some (c, pc) ∧
      pc.newNode = some (n, ip)
  closed : s.main.Closed → s.inUse = false
  records : ∀ t, recordsOf t s.history =
    ((s.calls[t]?.bind fun x => x.2.result.map fun r => (x.1, r))).toList

variable {in4Pton : List UInt8 → Option Addr} {s s' : State} {xs xs' : List ℕ} {t n : ℕ} {c : Call}
  {pc pc' : Pc}

@[simp] theorem blacklistOf_concat (history : List Event) (e : Event) :
    blacklistOf in4Pton (history ++ [e]) = e.apply in4Pton (blacklistOf in4Pton history) := by
  simp [blacklistOf]

theorem legal_concat_call {history : List Event} (h : Legal in4Pton history) (t : ℕ) (c : Call) :
    Legal in4Pton
      (history ++ [.call t c (c.perform in4Pton (blacklistOf in4Pton history)).1]) := by
  intro before t' c' r hprefix
  rcases List.prefix_concat_iff.1 hprefix with heq | hold
  · obtain ⟨rfl, hlast⟩ := List.append_inj' heq rfl
    cases hlast
    rfl
  · exact h before t' c' r hold

theorem legal_concat_freed {history : List Event} (h : Legal in4Pton history) :
    Legal in4Pton (history ++ [.freed]) := by
  intro before t c r hprefix
  rcases List.prefix_concat_iff.1 hprefix with heq | hold
  · obtain ⟨-, hlast⟩ := List.append_inj' heq rfl
    cases hlast
  · exact h before t c r hold

@[simp] theorem recordsOf_append (t : ℕ) (l₁ l₂ : List Event) :
    recordsOf t (l₁ ++ l₂) = recordsOf t l₁ ++ recordsOf t l₂ := by
  simp [recordsOf]

theorem recordsOf_call_self (t : ℕ) (c : Call) (r : Result) :
    recordsOf t [.call t c r] = [(c, r)] := by
  simp [recordsOf]

theorem recordsOf_call_of_ne {t t' : ℕ} (h : t' ≠ t) (c : Call) (r : Result) :
    recordsOf t [.call t' c r] = [] := by
  simp [recordsOf, h]

/-- The call has not reached the memory. -/
def Pc.Early : Pc → Prop
  | .kmalloc _ _ _ => True
  | .answer _ => True
  | .spinLock w => w.newNode = none
  | _ => False

/-- **The beginning of a call**: the rest of it is the call. -/
theorem begin_spec (in4Pton : List UInt8 → Option Addr) (c : Call) :
    (c.begin in4Pton).Means in4Pton c ∧ (c.begin in4Pton).Early := by
  cases c with
  | blacklistWrite c =>
    by_cases hcopy : c.copyFails = true
    · simp only [Call.begin, if_pos hcopy]
      exact ⟨fun blacklist => by simp [Call.perform, blacklistWrite, hcopy], trivial⟩
    by_cases hlen : c.kbuf.length < 2
    · simp only [Call.begin, if_neg hcopy, if_pos hlen]
      exact ⟨fun blacklist => by simp [Call.perform, blacklistWrite, hcopy, hlen], trivial⟩
    rcases hip : in4Pton c.ipStr with - | ip
    · simp only [Call.begin, if_neg hcopy, if_neg hlen, hip]
      exact ⟨fun blacklist => by simp [Call.perform, blacklistWrite, hcopy, hlen, hip], trivial⟩
    by_cases hadd : c.action = 43
    · simp only [Call.begin, if_neg hcopy, if_neg hlen, hip, if_pos hadd]
      refine ⟨fun blacklist => ?_, trivial⟩
      by_cases hfail : c.kmallocFails = true
      · simp [Call.perform, blacklistWrite, hcopy, hlen, hip, hadd, hfail]
      · by_cases hold : ip ∈ blacklist <;>
          simp [Call.perform, blacklistWrite, hcopy, hlen, hip, hadd, hfail, hold, Work.effect]
    by_cases hdel : c.action = 45
    · simp only [Call.begin, if_neg hcopy, if_neg hlen, hip, if_neg hadd, if_pos hdel]
      refine ⟨fun blacklist => ?_, rfl⟩
      simp [Call.perform, blacklistWrite, hcopy, hlen, hip, hdel, Work.effect]
    · simp only [Call.begin, if_neg hcopy, if_neg hlen, hip, if_neg hadd, if_neg hdel]
      refine ⟨fun blacklist => ?_, trivial⟩
      simp [Call.perform, blacklistWrite, hcopy, hlen, hip, hadd, hdel]
  | blacklistRead c ppos =>
    by_cases hfail : c.kmallocFails = true
    · simp only [Call.begin, if_pos hfail]
      exact ⟨fun blacklist => by simp [Call.perform, blacklistRead, hfail], trivial⟩
    · simp only [Call.begin, if_neg hfail]
      refine ⟨fun blacklist => ?_, rfl⟩
      simp [Call.perform, blacklistRead, hfail, Work.effect, readResult]
  | hookFuncIn skb =>
    rcases skb with - | ⟨- | ipHeader⟩
    · exact ⟨fun blacklist => rfl, trivial⟩
    · exact ⟨fun blacklist => rfl, trivial⟩
    · exact ⟨fun blacklist => rfl, rfl⟩

theorem Pc.Early.spec (h : pc.Early) :
    pc.newNode = none ∧ ¬ pc.Locked ∧ pc.result = none ∧ ∀ l, pc ≠ .loop l := by
  cases pc <;> first | exact ⟨h, id, rfl, fun l h => by cases h⟩ | exact h.elim |
    exact ⟨rfl, id, rfl, fun l h => by cases h⟩

/-- The call `t` gets from `pc` to `pc'`, and the ring from `xs` to `xs'`. -/
structure Change (in4Pton : List UInt8 → Option Addr) (s s' : State) (xs xs' : List ℕ) (t : ℕ)
    (c : Call) (pc pc' : Pc) : Prop where
  calls : s'.calls = s.calls.set t (c, pc')
  main : s'.main = s.main
  active : pc.isReturned = false
  means : pc'.Means in4Pton c
  holds : Holds s'.heap xs' (blacklistOf in4Pton s'.history)
  history : s'.history = s.history ∧ pc'.result = pc.result ∨
    s'.history = s.history ++ [.call t c (c.perform in4Pton (blacklistOf in4Pton s.history)).1] ∧
      pc.result = none ∧
      pc'.result = some (c.perform in4Pton (blacklistOf in4Pton s.history)).1
  locked : pc'.Locked ↔ s'.lock = some (.call t)
  lockOther : ∀ thread, thread ≠ .call t → (s'.lock = some thread ↔ s.lock = some thread)
  position : ∀ l, pc' = .loop l → ∃ seen rest,
    blacklistOf in4Pton s'.history = seen ++ rest ∧ l.Inv s'.heap xs' seen rest
  /-- While another holds the lock, the ring stays as it is. -/
  frame : ∀ thread, thread ≠ .call t → s.lock = some thread →
    xs' = xs ∧ blacklistOf in4Pton s'.history = blacklistOf in4Pton s.history ∧
      (∀ p ∈ (.head : IpPtr) :: xs.map .node, s'.heap.next p = s.heap.next p) ∧
      ∀ n ∈ xs, s'.heap.data n = s.heap.data n
  own : ∀ n, n ∉ xs → (∀ ip, pc.newNode ≠ some (n, ip)) → (s.heap.data n).isSome →
    n ∉ xs' ∧ s'.heap.data n = s.heap.data n
  newNode : ∀ n ip, pc'.newNode = some (n, ip) → n ∉ xs' ∧ s'.heap.data n = some ip ∧
    (pc.newNode = some (n, ip) ∨ s.heap.data n = none)
  live : ∀ n, (s'.heap.data n).isSome → n ∈ xs' ∨ (∃ ip, pc'.newNode = some (n, ip)) ∨
    n ∉ xs ∧ (∀ ip, pc.newNode ≠ some (n, ip)) ∧ (s.heap.data n).isSome

theorem getElem?_set_cases {l : List (Call × Pc)} {x y : Call × Pc} {t' : ℕ}
    (h : (l.set t x)[t']? = some y) : t' = t ∧ y = x ∨ t' ≠ t ∧ l[t']? = some y := by
  by_cases ht : t' = t
  · subst ht
    rw [List.getElem?_set_self'] at h
    obtain ⟨z, -, rfl⟩ := Option.map_eq_some_iff.1 h
    exact Or.inl ⟨rfl, rfl⟩
  · rw [List.getElem?_set_ne (Ne.symm ht)] at h
    exact Or.inr ⟨ht, h⟩

/-- While the file is closed, a call that still runs does not change the list. -/
theorem perform_of_not_usesFile (hc : c.usesFile = false) (blacklist : List Addr) :
    (c.perform in4Pton blacklist).2 = blacklist := by
  cases c with
  | blacklistWrite c => cases hc
  | blacklistRead c ppos => cases hc
  | hookFuncIn skb => rfl

theorem not_usesFile_of_inUse (hinUse : s.inUse = false) (ht : s.calls[t]? = some (c, pc))
    (hactive : pc.isReturned = false) : c.usesFile = false := by
  rw [State.inUse, List.any_eq_false] at hinUse
  have h := hinUse (c, pc) (List.mem_of_getElem? ht)
  simpa [hactive] using h

section Preservation

variable (hi : s.Inv in4Pton xs) (ht : s.calls[t]? = some (c, pc))
  (hc : Change in4Pton s s' xs xs' t c pc pc')

include hi ht hc

omit hi in
theorem Change.getElem?_self : s'.calls[t]? = some (c, pc') := by
  rw [hc.calls, List.getElem?_set_self (List.getElem?_eq_some_iff.1 ht).1]

omit ht in
theorem Change.legal : Legal in4Pton s'.history := by
  rcases hc.history with ⟨heq, -⟩ | ⟨heq, -⟩
  · rw [heq]
    exact hi.legal
  · rw [heq]
    exact legal_concat_call hi.legal t c

theorem Change.records (t' : ℕ) : recordsOf t' s'.history =
    ((s'.calls[t']?.bind fun x => x.2.result.map fun r => (x.1, r))).toList := by
  have hold := hi.records t'
  by_cases htt : t' = t
  · subst htt
    rw [hc.getElem?_self ht]
    rw [ht] at hold
    rcases hc.history with ⟨heq, hresult⟩ | ⟨heq, hnone, hsome⟩
    · rw [heq, hold]
      simp [hresult]
    · rw [heq, recordsOf_append, hold, recordsOf_call_self]
      simp [hnone, hsome]
  · rw [hc.calls, List.getElem?_set_ne (Ne.symm htt), ← hold]
    rcases hc.history with ⟨heq, -⟩ | ⟨heq, -⟩
    · rw [heq]
    · rw [heq, recordsOf_append, recordsOf_call_of_ne (Ne.symm htt), List.append_nil]

theorem Change.inUse (hclosed : s.main.Closed) : s'.inUse = false := by
  have hinUse := hi.closed hclosed
  have hfile := not_usesFile_of_inUse hinUse ht hc.active
  rw [State.inUse, List.any_eq_false] at hinUse ⊢
  intro x hx
  rw [hc.calls] at hx
  rcases List.mem_or_eq_of_mem_set hx with hx | rfl
  · exact hinUse x hx
  · simp [hfile]

/-- The list after the file is closed. -/
theorem Change.blacklistOf_of_closed (hclosed : s.main.Closed) :
    blacklistOf in4Pton s'.history = blacklistOf in4Pton s.history := by
  rcases hc.history with ⟨heq, -⟩ | ⟨heq, -⟩
  · rw [heq]
  · rw [heq, blacklistOf_concat]
    exact perform_of_not_usesFile (not_usesFile_of_inUse (hi.closed hclosed) ht hc.active) _

theorem Change.mainInv : s'.main.Inv s'.heap xs' (blacklistOf in4Pton s'.history) := by
  have hold := hi.mainInv
  rw [hc.main]
  cases hmain : s.main with
  | loop entry tmp =>
    rw [hmain] at hold
    have hlock : s.lock = some .main := hi.mainLocked.1 (by rw [hmain]; trivial)
    obtain ⟨rfl, hblacklist, hnext, hdata⟩ := hc.frame .main (by simp) hlock
    rw [hblacklist]
    exact ClearInv.frame hold hnext hdata
  | spinUnlock =>
    rw [hmain] at hold
    exact (hc.blacklistOf_of_closed hi ht (by rw [hmain]; trivial)).trans hold
  | gone =>
    rw [hmain] at hold
    exact (hc.blacklistOf_of_closed hi ht (by rw [hmain]; trivial)).trans hold
  | oops =>
    rw [hmain] at hold
    exact hold
  | _ => trivial

/-- What another call owns is not touched. -/
theorem Change.own_other {t' : ℕ} {c' : Call} {pc₁ : Pc} {ip : Addr} (hne : t' ≠ t)
    (ht' : s.calls[t']? = some (c', pc₁)) (hnew : pc₁.newNode = some (n, ip)) :
    n ∉ xs' ∧ s'.heap.data n = some ip := by
  obtain ⟨hmem, hdata⟩ := hi.own t' c' pc₁ n ip ht' hnew
  have hother : ∀ ip', pc.newNode ≠ some (n, ip') := fun ip' h =>
    hne (hi.ownUnique t' t c' c pc₁ pc n ip ip' ht' ht hnew h)
  obtain ⟨hmem', hsame⟩ := hc.own n hmem hother (Option.isSome_of_eq_some hdata)
  exact ⟨hmem', hsame.trans hdata⟩

/-- The node of a call after the turn is not the node of another. -/
theorem Change.newNode_other {t' : ℕ} {c' : Call} {pc₁ : Pc} {ip ip' : Addr}
    (ht' : s.calls[t']? = some (c', pc₁)) (hnew : pc₁.newNode = some (n, ip))
    (hnew' : pc'.newNode = some (n, ip')) : t' = t := by
  rcases (hc.newNode n ip' hnew').2.2 with hold | hfree
  · exact hi.ownUnique t' t c' c pc₁ pc n ip ip' ht' ht hnew hold
  · rw [(hi.own t' c' pc₁ n ip ht' hnew).2] at hfree
    cases hfree

variable (pc') in
/-- **A turn of a call keeps the invariant.** -/
theorem Change.inv : s'.Inv in4Pton xs' where
  holds := hc.holds
  legal := hc.legal hi
  means t' c' pc₁ h := by
    rw [hc.calls] at h
    rcases getElem?_set_cases h with ⟨-, heq⟩ | ⟨-, h⟩
    · cases heq
      exact hc.means
    · exact hi.means t' c' pc₁ h
  locked t' c' pc₁ h := by
    rw [hc.calls] at h
    rcases getElem?_set_cases h with ⟨rfl, heq⟩ | ⟨hne, h⟩
    · cases heq
      exact hc.locked
    · rw [hi.locked t' c' pc₁ h, hc.lockOther _ (by simpa using hne)]
  holder t' h := by
    rw [hc.calls, List.length_set]
    by_cases hne : t' = t
    · subst hne
      exact (List.getElem?_eq_some_iff.1 ht).1
    · exact hi.holder t' ((hc.lockOther _ (by simpa using hne)).1 h)
  mainLocked := by
    rw [hc.main, hi.mainLocked, hc.lockOther _ (by simp)]
  position t' c' l h := by
    rw [hc.calls] at h
    rcases getElem?_set_cases h with ⟨-, heq⟩ | ⟨hne, h⟩
    · cases heq
      exact hc.position l rfl
    · have hlock : s.lock = some (.call t') := (hi.locked t' c' _ h).1 trivial
      obtain ⟨seen, rest, hsplit, hl⟩ := hi.position t' c' l h
      obtain ⟨rfl, hblacklist, hnext, hdata⟩ := hc.frame _ (by simpa using hne) hlock
      exact ⟨seen, rest, hblacklist.trans hsplit, hl.frame hnext hdata⟩
  mainInv := hc.mainInv hi ht
  own t' c' pc₁ n ip h hnew := by
    rw [hc.calls] at h
    rcases getElem?_set_cases h with ⟨-, heq⟩ | ⟨hne, h⟩
    · cases heq
      exact ⟨(hc.newNode n ip hnew).1, (hc.newNode n ip hnew).2.1⟩
    · exact hc.own_other hi ht hne h hnew
  ownUnique t₁ t₂ c₁ c₂ pc₁ pc₂ n ip₁ ip₂ h₁ h₂ hnew₁ hnew₂ := by
    rw [hc.calls] at h₁ h₂
    rcases getElem?_set_cases h₁ with ⟨rfl, heq₁⟩ | ⟨-, hold₁⟩
    · rcases getElem?_set_cases h₂ with ⟨rfl, -⟩ | ⟨-, hold₂⟩
      · rfl
      · cases heq₁
        exact (hc.newNode_other hi ht hold₂ hnew₂ hnew₁).symm
    · rcases getElem?_set_cases h₂ with ⟨rfl, heq₂⟩ | ⟨-, hold₂⟩
      · cases heq₂
        exact hc.newNode_other hi ht hold₁ hnew₁ hnew₂
      · exact hi.ownUnique t₁ t₂ c₁ c₂ pc₁ pc₂ n ip₁ ip₂ hold₁ hold₂ hnew₁ hnew₂
  live n hn := by
    rcases hc.live n hn with hmem | ⟨ip, hnew⟩ | ⟨hmem, hnot, hold⟩
    · exact Or.inl hmem
    · exact Or.inr ⟨t, c, pc', ip, hc.getElem?_self ht, hnew⟩
    · rcases hi.live n hold with hmem' | ⟨t', c', pc₁, ip, h, hnew⟩
      · exact absurd hmem' hmem
      · have hne : t' ≠ t := by
          rintro rfl
          cases h.symm.trans ht
          exact hnot ip hnew
        refine Or.inr ⟨t', c', pc₁, ip, ?_, hnew⟩
        rw [hc.calls, List.getElem?_set_ne (Ne.symm hne)]
        exact h
  closed h := hc.inUse hi ht (by rwa [hc.main] at h)
  records := hc.records hi ht

end Preservation

end EltexPractice.Netfilter
