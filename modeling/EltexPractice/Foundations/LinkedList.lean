import Mathlib.Data.List.Nodup
import Mathlib.Logic.Function.Basic
import Mathlib.Tactic.Cases

/-!
# Circular doubly linked lists

The list of `linux/list.h` on a heap of nodes. A node holds data and the two links of a
`struct list_head`; the head of the list is a `struct list_head` of its own. Each operation is the
sequence of its loads and stores, and has no result when one of them hits a node that is not
allocated, or the poison that `list_del` leaves behind.

`IsList h xs`: the links of the heap `h` form the ring through the head and the nodes `xs`. Each
operation on such a ring has a result (`IsList.addTail`, `IsList.del`, `IsList.alloc`,
`IsList.free`), which is again a ring.
-/

namespace EltexPractice.LinkedList

/-! ## Paths along a pointer field -/

section Path

variable {P : Type*}

/-- The field `f` leads from `p` over `xs` to `q`. -/
def Path (f : P → Option P) (p : P) : List P → P → Prop
  | [], q => f p = some q
  | x :: xs, q => f p = some x ∧ Path f x xs q

variable {f g : P → Option P} {p q x : P} {xs ys : List P}

@[simp] theorem path_nil : Path f p [] q ↔ f p = some q := Iff.rfl

@[simp] theorem path_cons : Path f p (x :: xs) q ↔ f p = some x ∧ Path f x xs q := Iff.rfl

theorem path_append :
    Path f p (xs ++ x :: ys) q ↔ Path f p xs x ∧ Path f x ys q := by
  induction xs generalizing p with
  | nil => simp
  | cons y xs ih => simp [ih, and_assoc]

/-- The first pointer of a path. -/
theorem Path.first (h : Path f p xs q) : f p = some (xs.headD q) := by
  cases xs with
  | nil => exact h
  | cons x xs => exact h.1

theorem Path.isSome (h : Path f p xs q) (hx : x ∈ p :: xs) : (f x).isSome := by
  induction xs generalizing p with
  | nil =>
    obtain rfl := List.mem_singleton.1 hx
    exact Option.isSome_of_eq_some h
  | cons y xs ih =>
    rcases List.mem_cons.1 hx with rfl | hx
    · exact Option.isSome_of_eq_some h.1
    · exact ih h.2 hx

theorem Path.congr (h : Path f p xs q) (hfg : ∀ x ∈ p :: xs, g x = f x) : Path g p xs q := by
  induction xs generalizing p with
  | nil => exact (hfg p List.mem_cons_self).trans h
  | cons x xs ih =>
    refine ⟨(hfg p List.mem_cons_self).trans h.1, ih h.2 fun y hy => ?_⟩
    exact hfg y (List.mem_cons_of_mem p hy)

variable [DecidableEq P]

/-- A store to a place that is not on the path. -/
theorem Path.update (h : Path f p xs q) (hx : x ∉ p :: xs) (v : Option P) :
    Path (Function.update f x v) p xs q := by
  refine h.congr fun y hy => ?_
  have hne : y ≠ x := by
    rintro rfl
    exact hx hy
  exact Function.update_of_ne hne v f

/-- The last place of a path gets a new target. -/
theorem Path.redirect (h : Path f p xs q) (hnodup : (p :: xs).Nodup) (r : P) :
    Path (Function.update f (xs.getLastD p) (some r)) p xs r := by
  induction xs generalizing p with
  | nil => exact Function.update_self p (some r) f
  | cons x xs ih =>
    have hne : p ≠ xs.getLastD x := by
      rintro rfl
      exact (List.nodup_cons.1 hnodup).1 List.getLastD_mem_cons
    rw [List.getLastD_cons]
    refine ⟨?_, ih h.2 (List.nodup_cons.1 hnodup).2⟩
    rw [Function.update_of_ne hne]
    exact h.1

/-- The last place of a path gets a new target, which leads on to where the path led. -/
theorem Path.extend (h : Path f p xs q) (hnodup : (p :: xs).Nodup) (hx : x ∉ p :: xs) :
    Path (Function.update (Function.update f x (some q)) (xs.getLastD p) (some x)) p (xs ++ [x])
      q := by
  rw [path_append, path_nil]
  refine ⟨(h.update hx _).redirect hnodup x, ?_⟩
  have hne : x ≠ xs.getLastD p := by
    rintro rfl
    exact hx List.getLastD_mem_cons
  rw [Function.update_of_ne hne, Function.update_self]

/-- The first place of a path gets a new target, which leads on to where the path led. -/
theorem Path.push (h : Path f p xs q) (hp : p ∉ xs) (hx : x ∉ p :: xs) {v : Option P}
    (hv : f p = v) :
    Path (Function.update (Function.update f p (some x)) x v) p (x :: xs) q := by
  have hne : p ≠ x := by
    rintro rfl
    exact hx List.mem_cons_self
  refine ⟨?_, ?_⟩
  · rw [Function.update_of_ne hne, Function.update_self]
  · cases xs with
    | nil => rw [path_nil, Function.update_self, ← hv, h]
    | cons y ys =>
      refine ⟨by rw [Function.update_self, ← hv, h.1], ?_⟩
      refine (h.2.update hp _).update ?_ _
      exact fun hmem => hx (List.mem_cons_of_mem p hmem)

/-- The place before `x` gets the target of `x`. -/
theorem Path.bypass (h : Path f p (xs ++ x :: ys) q) (hnodup : (p :: (xs ++ x :: ys)).Nodup) :
    Path (Function.update f (xs.getLastD p) (some (ys.headD q))) p (xs ++ ys) q := by
  obtain ⟨hleft, hright⟩ := path_append.1 h
  rw [← List.cons_append, List.nodup_append] at hnodup
  obtain ⟨hxs, hys, hdisjoint⟩ := hnodup
  have hredirect := hleft.redirect hxs (ys.headD q)
  cases ys with
  | nil =>
    rw [List.append_nil]
    exact hredirect
  | cons y ys =>
    refine path_append.2 ⟨hredirect, hright.2.update ?_ _⟩
    intro hmem
    exact hdisjoint _ List.getLastD_mem_cons _ (List.mem_cons_of_mem x hmem) rfl

end Path

/-! ## The heap -/

/-- A pointer to a `struct list_head`: the head of the list, the one in a node, or the poison of
`list_del`. -/
inductive Ptr (ι : Type*)
  | head
  | node (n : ι)
  | poison
  deriving DecidableEq

/-- `struct list_head` -/
structure Links (ι : Type*) where
  next : Ptr ι
  prev : Ptr ι

/-- The head of the list, and the nodes that are allocated. -/
structure Heap (ι α : Type*) where
  head : Links ι
  nodes : ι → Option (α × Links ι)

namespace Heap

variable {ι α : Type*} (h : Heap ι α)

/-- `LIST_HEAD`: the list is empty. -/
def init (ι α : Type*) : Heap ι α := ⟨⟨.head, .head⟩, fun _ => none⟩

/-- The `struct list_head` at a pointer. -/
def links : Ptr ι → Option (Links ι)
  | .head => some h.head
  | .node n => (h.nodes n).map (·.2)
  | .poison => none

/-- `p->next` -/
def next (p : Ptr ι) : Option (Ptr ι) := (h.links p).map (·.next)

/-- `p->prev` -/
def prev (p : Ptr ι) : Option (Ptr ι) := (h.links p).map (·.prev)

/-- The data of a node. -/
def data (n : ι) : Option α := (h.nodes n).map (·.1)

theorem isSome_next {h : Heap ι α} {p : Ptr ι} : (h.next p).isSome ↔ (h.links p).isSome := by
  simp [next]

theorem isSome_prev {h : Heap ι α} {p : Ptr ι} : (h.prev p).isSome ↔ (h.next p).isSome := by
  simp [next, prev]

theorem isSome_next_node {h : Heap ι α} {n : ι} :
    (h.next (.node n)).isSome ↔ (h.data n).isSome := by
  simp [next, links, data]

variable [DecidableEq ι]

/-- A store to the `struct list_head` at a pointer. -/
def store (p : Ptr ι) (f : Links ι → Links ι) : Option (Heap ι α) :=
  match p with
  | .head => some { h with head := f h.head }
  | .node n => (h.nodes n).map fun x =>
      { h with nodes := Function.update h.nodes n (some (x.1, f x.2)) }
  | .poison => none

/-- `p->next = q` -/
def setNext (p q : Ptr ι) : Option (Heap ι α) := h.store p fun l => { l with next := q }

/-- `p->prev = q` -/
def setPrev (p q : Ptr ι) : Option (Heap ι α) := h.store p fun l => { l with prev := q }

/-- `kmalloc`, which returned `n`, and the initialisation of the node (`INIT_LIST_HEAD`). -/
def alloc (n : ι) (a : α) : Option (Heap ι α) :=
  if (h.nodes n).isNone then
    some { h with nodes := Function.update h.nodes n (some (a, ⟨.node n, .node n⟩)) }
  else none

/-- `kfree` -/
def free (n : ι) : Option (Heap ι α) :=
  if (h.nodes n).isSome then some { h with nodes := Function.update h.nodes n none } else none

/-- `list_add_tail`: `__list_add(new, head->prev, head)` -/
def addTail (n : ι) : Option (Heap ι α) :=
  (h.prev .head).bind fun last =>
    (h.setPrev .head (.node n)).bind fun h =>
    (h.setNext (.node n) .head).bind fun h =>
    (h.setPrev (.node n) last).bind fun h =>
    h.setNext last (.node n)

/-- `list_del`: `__list_del(entry->prev, entry->next)`, and the poison in the links. -/
def del (n : ι) : Option (Heap ι α) :=
  (h.prev (.node n)).bind fun prev => (h.next (.node n)).bind fun next =>
    (h.setPrev next prev).bind fun h =>
    (h.setNext prev next).bind fun h =>
    (h.setNext (.node n) .poison).bind fun h =>
    h.setPrev (.node n) .poison

/-! ### What the operations do to the fields -/

variable {h}

/-- A store: it succeeds where there is something to store to, and changes the one place. -/
theorem store_spec {p : Ptr ι} (hp : (h.next p).isSome) (f : Links ι → Links ι) :
    ∃ h', h.store p f = some h' ∧ h'.links = Function.update h.links p ((h.links p).map f) ∧
      h'.data = h.data := by
  cases p with
  | head =>
    refine ⟨_, rfl, ?_, rfl⟩
    funext q
    cases q <;> simp [links]
  | node n =>
    obtain ⟨⟨a, l⟩, hn⟩ : ∃ x, h.nodes n = some x := by
      simpa [next, links, Option.isSome_iff_exists] using hp
    refine ⟨{ h with nodes := Function.update h.nodes n (some (a, f l)) }, ?_, ?_, ?_⟩
    · simp [store, hn]
    · funext q
      cases q with
      | head => simp [links]
      | node m =>
        by_cases hm : m = n
        · subst hm
          simp [links, hn]
        · simp [links, hm]
      | poison => simp [links]
    · funext m
      by_cases hm : m = n
      · subst hm
        simp [data, hn]
      · simp [data, hm]
  | poison => cases hp

theorem setNext_spec {p : Ptr ι} (hp : (h.next p).isSome) (q : Ptr ι) :
    ∃ h', h.setNext p q = some h' ∧ h'.next = Function.update h.next p (some q) ∧
      h'.prev = h.prev ∧ h'.data = h.data := by
  obtain ⟨h', hstore, hlinks, hdata⟩ := store_spec hp fun l => { l with next := q }
  obtain ⟨l, hl⟩ := Option.isSome_iff_exists.1 (isSome_next.1 hp)
  refine ⟨h', hstore, ?_, ?_, hdata⟩
  · funext r
    by_cases hr : r = p
    · subst hr
      simp [next, hlinks, hl]
    · simp [next, hlinks, hr]
  · funext r
    by_cases hr : r = p
    · subst hr
      simp [prev, hlinks, hl]
    · simp [prev, hlinks, hr]

theorem setPrev_spec {p : Ptr ι} (hp : (h.next p).isSome) (q : Ptr ι) :
    ∃ h', h.setPrev p q = some h' ∧ h'.prev = Function.update h.prev p (some q) ∧
      h'.next = h.next ∧ h'.data = h.data := by
  obtain ⟨h', hstore, hlinks, hdata⟩ := store_spec hp fun l => { l with prev := q }
  obtain ⟨l, hl⟩ := Option.isSome_iff_exists.1 (isSome_next.1 hp)
  refine ⟨h', hstore, ?_, ?_, hdata⟩
  · funext r
    by_cases hr : r = p
    · subst hr
      simp [prev, hlinks, hl]
    · simp [prev, hlinks, hr]
  · funext r
    by_cases hr : r = p
    · subst hr
      simp [next, hlinks, hl]
    · simp [next, hlinks, hr]

/-- The stores of `list_add_tail`. -/
theorem addTail_spec {n : ι} {last : Ptr ι} (hhead : h.prev .head = some last)
    (hlast : (h.next last).isSome) (hne : last ≠ .node n) (hn : (h.data n).isSome) :
    ∃ h', h.addTail n = some h' ∧
      h'.next = Function.update (Function.update h.next (.node n) (some .head)) last
        (some (.node n)) ∧
      h'.prev = Function.update (Function.update h.prev .head (some (.node n))) (.node n)
        (some last) ∧
      h'.data = h.data := by
  have hsome : (h.next .head).isSome := isSome_next.2 rfl
  obtain ⟨h₁, hs₁, hprev₁, hnext₁, hdata₁⟩ := setPrev_spec hsome (.node n)
  have hnode₁ : (h₁.next (.node n)).isSome := by
    rw [hnext₁]
    exact isSome_next_node.2 hn
  obtain ⟨h₂, hs₂, hnext₂, hprev₂, hdata₂⟩ := setNext_spec hnode₁ .head
  have hnode₂ : (h₂.next (.node n)).isSome := by
    rw [hnext₂, Function.update_self]
    rfl
  obtain ⟨h₃, hs₃, hprev₃, hnext₃, hdata₃⟩ := setPrev_spec hnode₂ last
  have hlast₃ : (h₃.next last).isSome := by
    rw [hnext₃, hnext₂, Function.update_of_ne hne, hnext₁]
    exact hlast
  obtain ⟨h₄, hs₄, hnext₄, hprev₄, hdata₄⟩ := setNext_spec hlast₃ (.node n)
  refine ⟨h₄, ?_, ?_, ?_, by rw [hdata₄, hdata₃, hdata₂, hdata₁]⟩
  · simp only [addTail, hhead, hs₁, hs₂, hs₃, hs₄, Option.bind_some]
  · rw [hnext₄, hnext₃, hnext₂, hnext₁]
  · rw [hprev₄, hprev₃, hprev₂, hprev₁]

/-- The stores of `list_del`. -/
theorem del_spec {n : ι} {p q : Ptr ι} (hprev : h.prev (.node n) = some p)
    (hnext : h.next (.node n) = some q) (hp : (h.next p).isSome) (hq : (h.next q).isSome) :
    ∃ h', h.del n = some h' ∧
      h'.next = Function.update (Function.update h.next p (some q)) (.node n) (some .poison) ∧
      h'.prev = Function.update (Function.update h.prev q (some p)) (.node n) (some .poison) ∧
      h'.data = h.data := by
  obtain ⟨h₁, hs₁, hprev₁, hnext₁, hdata₁⟩ := setPrev_spec hq p
  have hp₁ : (h₁.next p).isSome := by
    rw [hnext₁]
    exact hp
  obtain ⟨h₂, hs₂, hnext₂, hprev₂, hdata₂⟩ := setNext_spec hp₁ q
  have hnode₂ : (h₂.next (.node n)).isSome := by
    rw [isSome_next_node, hdata₂, hdata₁, ← isSome_next_node, hnext]
    rfl
  obtain ⟨h₃, hs₃, hnext₃, hprev₃, hdata₃⟩ := setNext_spec hnode₂ .poison
  have hnode₃ : (h₃.next (.node n)).isSome := by
    rw [hnext₃, Function.update_self]
    rfl
  obtain ⟨h₄, hs₄, hprev₄, hnext₄, hdata₄⟩ := setPrev_spec hnode₃ .poison
  refine ⟨h₄, ?_, ?_, ?_, by rw [hdata₄, hdata₃, hdata₂, hdata₁]⟩
  · simp only [del, hprev, hnext, hs₁, hs₂, hs₃, hs₄, Option.bind_some]
  · rw [hnext₄, hnext₃, hnext₂, hnext₁]
  · rw [hprev₄, hprev₃, hprev₂, hprev₁]

/-- A node that is allocated has the links of an empty list. -/
theorem alloc_spec {n : ι} (hn : h.data n = none) (a : α) :
    ∃ h', h.alloc n a = some h' ∧ (∀ p, p ≠ .node n → h'.links p = h.links p) ∧
      h'.data = Function.update h.data n (some a) := by
  have hfree : h.nodes n = none := by simpa [data] using hn
  refine ⟨_, by rw [alloc, hfree]; rfl, fun p hp => ?_, ?_⟩
  · cases p with
    | head => rfl
    | node m =>
      have hm : m ≠ n := fun heq => hp (heq ▸ rfl)
      simp [links, hm]
    | poison => rfl
  · funext m
    by_cases hm : m = n
    · subst hm
      simp [data]
    · simp [data, hm]

theorem free_spec {n : ι} (hn : (h.data n).isSome) :
    ∃ h', h.free n = some h' ∧ (∀ p, p ≠ .node n → h'.links p = h.links p) ∧
      h'.data = Function.update h.data n none := by
  have hsome : (h.nodes n).isSome := by simpa [data] using hn
  refine ⟨_, by rw [free, if_pos hsome], fun p hp => ?_, ?_⟩
  · cases p with
    | head => rfl
    | node m =>
      have hm : m ≠ n := fun heq => hp (heq ▸ rfl)
      simp [links, hm]
    | poison => rfl
  · funext m
    by_cases hm : m = n
    · subst hm
      simp [data]
    · simp [data, hm]

end Heap

/-! ## Rings -/

/-- The links form the ring through the head and the nodes `xs`. -/
structure IsList {ι α : Type*} (h : Heap ι α) (xs : List ι) : Prop where
  nodup : xs.Nodup
  forward : Path h.next .head (xs.map .node) .head
  backward : Path h.prev .head (xs.reverse.map .node) .head

theorem isList_init (ι α : Type*) : IsList (Heap.init ι α) [] where
  nodup := List.nodup_nil
  forward := rfl
  backward := rfl

section Ring

variable {ι α : Type*} {h : Heap ι α} {xs ys : List ι} {n : ι}

theorem nodup_head_cons (hxs : xs.Nodup) : ((.head : Ptr ι) :: xs.map .node).Nodup := by
  refine List.nodup_cons.2 ⟨by simp, hxs.map fun a b hab => ?_⟩
  cases hab
  rfl

theorem IsList.congr {h' : Heap ι α} (hl : IsList h xs)
    (hnext : ∀ p ∈ (.head : Ptr ι) :: xs.map .node, h'.next p = h.next p)
    (hprev : ∀ p ∈ (.head : Ptr ι) :: xs.map .node, h'.prev p = h.prev p) : IsList h' xs where
  nodup := hl.nodup
  forward := hl.forward.congr hnext
  backward := hl.backward.congr fun p hp => hprev p (by simpa using hp)

/-- A pointer into the ring can be followed. -/
theorem IsList.isSome_next (hl : IsList h xs) {p : Ptr ι}
    (hp : p ∈ (.head : Ptr ι) :: xs.map .node) : (h.next p).isSome := hl.forward.isSome hp

/-- The nodes of a ring are allocated. -/
theorem IsList.isSome_data (hl : IsList h xs) (hn : n ∈ xs) : (h.data n).isSome := by
  have hp : (Ptr.node n) ∈ (.head : Ptr ι) :: xs.map .node := by simp [hn]
  exact Heap.isSome_next_node.1 (hl.isSome_next hp)

theorem last_reverse : (ys.reverse.map Ptr.node).getLastD .head = (ys.map .node).headD .head := by
  simp [List.getLast?_reverse]

theorem first_reverse : (xs.reverse.map Ptr.node).headD .head = (xs.map .node).getLastD .head := by
  simp [List.head?_reverse]

/-- The links behind a part of the ring. -/
theorem IsList.next_split (hl : IsList h (xs ++ n :: ys)) :
    h.next (.node n) = some ((ys.map .node).headD .head) := by
  have hforward := hl.forward
  rw [List.map_append, List.map_cons, path_append] at hforward
  exact hforward.2.first

/-- The links before a part of the ring. -/
theorem IsList.prev_split (hl : IsList h (xs ++ n :: ys)) :
    h.prev (.node n) = some ((xs.map .node).getLastD .head) := by
  have hbackward := hl.backward
  rw [List.reverse_append, List.reverse_cons, List.append_assoc, List.singleton_append,
    List.map_append, List.map_cons, path_append] at hbackward
  rw [hbackward.2.first]
  exact congrArg some first_reverse

/-- The link from the head back. -/
theorem IsList.prev_head (hl : IsList h xs) :
    h.prev .head = some ((xs.map .node).getLastD .head) := by
  rw [hl.backward.first]
  exact congrArg some first_reverse

theorem node_notMem (hn : n ∉ xs) : Ptr.node n ∉ (.head : Ptr ι) :: xs.map .node := by
  simpa using hn

/-- Links that change in a node outside the ring only. -/
theorem IsList.frame {h' : Heap ι α} (hl : IsList h xs) (hn : n ∉ xs)
    (hlinks : ∀ p, p ≠ .node n → h'.links p = h.links p) : IsList h' xs := by
  have hne : ∀ p ∈ (.head : Ptr ι) :: xs.map .node, p ≠ .node n := by
    rintro p hp rfl
    exact node_notMem hn hp
  refine hl.congr (fun p hp => ?_) fun p hp => ?_
  · rw [Heap.next, Heap.next, hlinks p (hne p hp)]
  · rw [Heap.prev, Heap.prev, hlinks p (hne p hp)]

variable [DecidableEq ι]

/-- **`list_add_tail`** puts a node behind the others. -/
theorem IsList.addTail (hl : IsList h xs) (hn : n ∉ xs) (hdata : (h.data n).isSome) :
    ∃ h', h.addTail n = some h' ∧ IsList h' (xs ++ [n]) ∧ h'.data = h.data := by
  have hmem : (xs.map Ptr.node).getLastD .head ∈ (.head : Ptr ι) :: xs.map .node :=
    List.getLastD_mem_cons
  have hne : (xs.map Ptr.node).getLastD .head ≠ .node n := by
    intro heq
    exact node_notMem hn (heq ▸ hmem)
  obtain ⟨h', hadd, hnext, hprev, hdata'⟩ :=
    Heap.addTail_spec hl.prev_head (hl.isSome_next hmem) hne hdata
  refine ⟨h', hadd, ⟨?_, ?_, ?_⟩, hdata'⟩
  · exact List.nodup_append_comm.1 (List.nodup_cons.2 ⟨hn, hl.nodup⟩)
  · rw [hnext, List.map_append, List.map_singleton]
    exact hl.forward.extend (nodup_head_cons hl.nodup) (node_notMem hn)
  · rw [hprev, List.reverse_append, List.reverse_singleton, List.singleton_append, List.map_cons]
    exact hl.backward.push (by simp) (by simpa using hn) hl.prev_head

/-- **`list_del`** takes a node out of the ring. -/
theorem IsList.del (hl : IsList h (xs ++ n :: ys)) :
    ∃ h', h.del n = some h' ∧ IsList h' (xs ++ ys) ∧ h'.data = h.data := by
  obtain ⟨hn, hnodup⟩ := List.nodup_cons.1 (List.nodup_middle.1 hl.nodup)
  have hlast : (xs.map Ptr.node).getLastD .head ∈ (.head : Ptr ι) :: (xs ++ n :: ys).map .node := by
    have hmem := List.getLastD_mem_cons (l := xs.map Ptr.node) (a := .head)
    rw [List.map_append, ← List.cons_append]
    exact List.mem_append_left _ hmem
  have hfirst : (ys.map Ptr.node).headD .head ∈ (.head : Ptr ι) :: (xs ++ n :: ys).map .node := by
    cases ys with
    | nil => exact List.mem_cons_self
    | cons y ys => simp
  obtain ⟨h', hdel, hnext, hprev, hdata⟩ :=
    Heap.del_spec hl.prev_split hl.next_split (hl.isSome_next hlast) (hl.isSome_next hfirst)
  refine ⟨h', hdel, ⟨hnodup, ?_, ?_⟩, hdata⟩
  · have hforward := hl.forward
    rw [List.map_append, List.map_cons] at hforward
    rw [hnext, List.map_append]
    refine (hforward.bypass ?_).update ?_ _
    · rw [← List.map_cons, ← List.map_append]
      exact nodup_head_cons hl.nodup
    · rw [← List.map_append]
      exact node_notMem hn
  · have hbackward := hl.backward
    rw [List.reverse_append, List.reverse_cons, List.append_assoc, List.singleton_append,
      List.map_append, List.map_cons] at hbackward
    have hbypass := hbackward.bypass (by
      rw [← List.map_cons, ← List.map_append]
      refine nodup_head_cons (List.nodup_middle.2 (List.nodup_cons.2 ⟨?_, ?_⟩))
      · rw [← List.reverse_append, List.mem_reverse]
        exact hn
      · rw [← List.reverse_append, List.nodup_reverse]
        exact hnodup)
    rw [last_reverse, first_reverse] at hbypass
    rw [hprev, List.reverse_append, List.map_append]
    refine hbypass.update ?_ _
    rw [← List.map_append, ← List.reverse_append]
    exact node_notMem (by rwa [List.mem_reverse])

/-- **`kmalloc`** of a node that is not allocated. -/
theorem IsList.alloc (hl : IsList h xs) (hn : h.data n = none) (a : α) :
    n ∉ xs ∧ ∃ h', h.alloc n a = some h' ∧ IsList h' xs ∧
      h'.data = Function.update h.data n (some a) ∧
      ∀ p, p ≠ .node n → h'.next p = h.next p := by
  have hmem : n ∉ xs := by
    intro hmem
    have hsome := hl.isSome_data hmem
    rw [hn] at hsome
    cases hsome
  obtain ⟨h', halloc, hlinks, hdata⟩ := Heap.alloc_spec hn a
  refine ⟨hmem, h', halloc, hl.frame hmem hlinks, hdata, fun p hp => ?_⟩
  rw [Heap.next, Heap.next, hlinks p hp]

/-- **`kfree`** of a node outside the ring. -/
theorem IsList.free (hl : IsList h xs) (hn : n ∉ xs) (hdata : (h.data n).isSome) :
    ∃ h', h.free n = some h' ∧ IsList h' xs ∧ h'.data = Function.update h.data n none ∧
      ∀ p, p ≠ .node n → h'.next p = h.next p := by
  obtain ⟨h', hfree, hlinks, hdata'⟩ := Heap.free_spec hdata
  refine ⟨h', hfree, hl.frame hn hlinks, hdata', fun p hp => ?_⟩
  rw [Heap.next, Heap.next, hlinks p hp]

end Ring

end EltexPractice.LinkedList
