import EltexPractice.Netfilter.Concurrency

/-!
# Calls of the netfilter module are linearizable

* `linearizable`: in every interleaving no access to the memory goes wrong, and the calls have the
  results that `blacklistWrite`, `blacklistRead` and `hookFuncIn` give one after the other.
* `nodes_accounted`: no node is freed twice, every node that is allocated is in the ring or with the
  one call that has allocated it, and after `cleanup_main` none is left.
* `section_ends`: the holder of the lock releases it after finitely many turns of its own.
-/

namespace EltexPractice.Netfilter

open CString Inet LinkedList

variable {in4Pton : List UInt8 → Option Addr} {s s' : State} {xs xs' : List ℕ} {t n : ℕ} {c : Call}
  {pc pc' : Pc}

/-! ## The turns -/

section Turns

variable (hi : s.Inv in4Pton xs)

include hi

/-- A turn that neither touches the memory nor the lock. -/
theorem State.Inv.quiet (ht : s.calls[t]? = some (c, pc)) (hactive : pc.isReturned = false)
    (hmeans : pc'.Means in4Pton c) (hlocked : ¬ pc.Locked) (hlocked' : ¬ pc'.Locked)
    (hloop : ∀ l, pc' ≠ .loop l) (hnew : pc.newNode = none) (hnew' : pc'.newNode = none)
    (hresult : pc'.result = pc.result) : (s.goto t c pc').Inv in4Pton xs := by
  refine Change.inv pc' hi ht {
    calls := rfl
    main := rfl
    active := hactive
    means := hmeans
    holds := hi.holds
    history := Or.inl ⟨rfl, hresult⟩
    locked := iff_of_false hlocked' fun h => hlocked ((hi.locked t c pc ht).2 h)
    lockOther := fun _ _ => Iff.rfl
    position := fun l h => absurd h (hloop l)
    frame := fun _ _ _ => ⟨rfl, rfl, fun _ _ => rfl, fun _ _ => rfl⟩
    own := fun n hn _ _ => ⟨hn, rfl⟩
    newNode := fun n ip h => by
      rw [hnew'] at h
      cases h
    live := fun n hn => ?_ }
  by_cases hmem : n ∈ xs
  · exact Or.inl hmem
  · refine Or.inr (Or.inr ⟨hmem, fun ip h => ?_, hn⟩)
    rw [hnew] at h
    cases h

/-- `kmalloc` returns a node that is not in use. -/
theorem State.Inv.alloc {count : ℕ} {ip : Addr} {heap : IpHeap}
    (ht : s.calls[t]? = some (c, .kmalloc count ip false))
    (halloc : s.heap.alloc n ip = some heap) :
    State.Inv in4Pton { s.goto t c (.spinLock (.add count n ip)) with heap } xs := by
  have hfree : s.heap.data n = none := by
    rw [Heap.alloc] at halloc
    split at halloc
    · rename_i hnone
      simpa [Heap.data] using hnone
    · cases halloc
  obtain ⟨hmem, heap', halloc', hring, hdata, hnext⟩ := hi.holds.ring.alloc hfree ip
  obtain rfl := Option.some.inj (halloc.symm.trans halloc')
  have hne : ∀ m, m ≠ n → heap.data m = s.heap.data m := fun m hm => by
    rw [hdata, Function.update_of_ne hm]
  have hsame : ∀ m ∈ xs, heap.data m = s.heap.data m := by
    intro m hm
    apply hne
    rintro rfl
    exact hmem hm
  refine Change.inv (.spinLock (.add count n ip)) hi ht {
    calls := rfl
    main := rfl
    active := rfl
    means := fun blacklist => ?_
    holds := ⟨hring, ?_⟩
    history := Or.inl ⟨rfl, rfl⟩
    locked := iff_of_false id fun h => (hi.locked t c _ ht).2 h
    lockOther := fun _ _ => Iff.rfl
    position := fun l h => by cases h
    frame := fun _ _ _ => ⟨rfl, rfl, fun p hp => hnext p ?_, hsame⟩
    own := fun m hm _ hlive => ⟨hm, hne m ?_⟩
    newNode := fun m ip' h => ?_
    live := fun m hm => ?_ }
  · exact hi.means t c _ ht blacklist
  · exact (List.map_congr_left hsame).trans hi.holds.data
  · rintro rfl
    exact node_notMem hmem hp
  · rintro rfl
    rw [hfree] at hlive
    cases hlive
  · cases h
    refine ⟨hmem, ?_, Or.inr hfree⟩
    rw [hdata, Function.update_self]
  · by_cases heq : m = n
    · exact Or.inr (Or.inl ⟨ip, by rw [heq]; rfl⟩)
    · by_cases hxs : m ∈ xs
      · exact Or.inl hxs
      · refine Or.inr (Or.inr ⟨hxs, fun ip' h => ?_, ?_⟩)
        · cases h
        · rw [← hne m heq]
          exact hm

/-- What a call in its section finds. -/
theorem State.Inv.turn_loop {l : Loop} (ht : s.calls[t]? = some (c, .loop l)) :
    ∃ seen rest, blacklistOf in4Pton s.history = seen ++ rest ∧
      ((∃ a rest' l', rest = a :: rest' ∧ l.turn s.heap = some (s.heap, .inl l') ∧
          l'.work = l.work ∧ l'.Inv s.heap xs (seen ++ [a]) rest') ∨
        ∃ h' xs' r, l.turn s.heap = some (h', .inr r) ∧
          l.work.Ends s.heap xs (seen ++ rest) h' xs' r) := by
  obtain ⟨seen, rest, hsplit, hl⟩ := hi.position t c l ht
  refine ⟨seen, rest, hsplit, Loop.turn_spec (hsplit ▸ hi.holds) hl fun n ip hnew => ?_⟩
  exact hi.own t c _ n ip ht hnew

/-- A section begins. -/
theorem State.Inv.enter {w : Work} {l : Loop} (ht : s.calls[t]? = some (c, .spinLock w))
    (hlock : s.lock = none) (hwork : l.work = w)
    (hl : l.Inv s.heap xs [] (blacklistOf in4Pton s.history)) :
    State.Inv in4Pton { s.goto t c (.loop l) with lock := some (.call t) } xs := by
  subst hwork
  refine Change.inv (.loop l) hi ht {
    calls := rfl
    main := rfl
    active := rfl
    means := fun blacklist => hi.means t c _ ht blacklist
    holds := hi.holds
    history := Or.inl ⟨rfl, rfl⟩
    locked := iff_of_true trivial rfl
    lockOther := fun thread hne => ?_
    position := fun l' h => ?_
    frame := fun _ _ _ => ⟨rfl, rfl, fun _ _ => rfl, fun _ _ => rfl⟩
    own := fun n hn _ _ => ⟨hn, rfl⟩
    newNode := fun n ip h => ?_
    live := fun n hn => ?_ }
  · rw [hlock]
    exact iff_of_false (fun h => hne (Option.some.inj h).symm) nofun
  · cases h
    exact ⟨[], _, rfl, hl⟩
  · obtain ⟨hmem, hdata⟩ := hi.own t c _ n ip ht h
    exact ⟨hmem, hdata, Or.inl h⟩
  · by_cases hmem : n ∈ xs
    · exact Or.inl hmem
    · by_cases hnew : ∃ ip, l.work.newNode = some (n, ip)
      · exact Or.inr (Or.inl hnew)
      · exact Or.inr (Or.inr ⟨hmem, fun ip h => hnew ⟨ip, h⟩, hn⟩)

/-- A section goes on. -/
theorem State.Inv.continue {l l' : Loop} {seen rest : List Addr}
    (ht : s.calls[t]? = some (c, .loop l)) (hsplit : blacklistOf in4Pton s.history = seen ++ rest)
    (hwork : l'.work = l.work) (hl : l'.Inv s.heap xs seen rest) :
    (s.goto t c (.loop l')).Inv in4Pton xs := by
  refine Change.inv (.loop l') hi ht {
    calls := rfl
    main := rfl
    active := rfl
    means := fun blacklist => ?_
    holds := hi.holds
    history := Or.inl ⟨rfl, rfl⟩
    locked := iff_of_true trivial ((hi.locked t c _ ht).1 trivial)
    lockOther := fun _ _ => Iff.rfl
    position := fun l₁ h => ?_
    frame := fun _ _ _ => ⟨rfl, rfl, fun _ _ => rfl, fun _ _ => rfl⟩
    own := fun n hn _ _ => ⟨hn, rfl⟩
    newNode := fun n ip h => ?_
    live := fun n hn => ?_ }
  · rw [hwork]
    exact hi.means t c _ ht blacklist
  · cases h
    exact ⟨seen, rest, hsplit, hl⟩
  · have hnew : (Pc.loop l).newNode = some (n, ip) := (congrArg Work.newNode hwork).symm.trans h
    obtain ⟨hmem, hdata⟩ := hi.own t c _ n ip ht hnew
    exact ⟨hmem, hdata, Or.inl hnew⟩
  · by_cases hmem : n ∈ xs
    · exact Or.inl hmem
    · by_cases hnew : ∃ ip, l'.work.newNode = some (n, ip)
      · exact Or.inr (Or.inl hnew)
      · refine Or.inr (Or.inr ⟨hmem, fun ip h => hnew ⟨ip, ?_⟩, hn⟩)
        exact (congrArg Work.newNode hwork).trans h

/-- A section ends. -/
theorem State.Inv.ends {l : Loop} {heap : IpHeap} {r : Result}
    (ht : s.calls[t]? = some (c, .loop l))
    (hends : l.work.Ends s.heap xs (blacklistOf in4Pton s.history) heap xs' r) :
    State.Inv in4Pton ({ s.goto t c (.spinUnlock r) with heap }.record (.call t c r)) xs' := by
  have hmeans := hi.means t c _ ht (blacklistOf in4Pton s.history)
  have hlock : s.lock = some (.call t) := (hi.locked t c _ ht).1 trivial
  have hr : r = (c.perform in4Pton (blacklistOf in4Pton s.history)).1 := by
    rw [hmeans]
    exact hends.result
  refine Change.inv (.spinUnlock r) hi ht {
    calls := rfl
    main := rfl
    active := rfl
    means := trivial
    holds := ?_
    history := Or.inr ⟨?_, rfl, congrArg some hr⟩
    locked := iff_of_true trivial hlock
    lockOther := fun _ _ => Iff.rfl
    position := fun l' h => by cases h
    frame := fun thread hne h => ?_
    own := fun n hn hnew _ => hends.frame n hn hnew
    newNode := fun n ip h => by cases h
    live := fun n hn => ?_ }
  · change Holds heap xs' (blacklistOf in4Pton (s.history ++ [.call t c r]))
    rw [blacklistOf_concat, Event.apply, hmeans]
    exact hends.holds
  · rw [← hr]
    rfl
  · rw [hlock] at h
    exact absurd (Option.some.inj h).symm hne
  · by_cases hmet : n ∈ xs ∨ ∃ ip, l.work.newNode = some (n, ip)
    · exact Or.inl (hends.live n hmet hn)
    · rw [not_or] at hmet
      obtain ⟨hmem, hnew⟩ := hmet
      have hnot : ∀ ip, l.work.newNode ≠ some (n, ip) := fun ip h => hnew ⟨ip, h⟩
      refine Or.inr (Or.inr ⟨hmem, hnot, ?_⟩)
      rw [← (hends.frame n hmem hnot).2]
      exact hn

/-- The lock is released. -/
theorem State.Inv.unlock {r : Result} (ht : s.calls[t]? = some (c, .spinUnlock r)) :
    State.Inv in4Pton { s.goto t c (.returned r) with lock := none } xs := by
  have hlock : s.lock = some (.call t) := (hi.locked t c _ ht).1 trivial
  refine Change.inv (.returned r) hi ht {
    calls := rfl
    main := rfl
    active := rfl
    means := trivial
    holds := hi.holds
    history := Or.inl ⟨rfl, rfl⟩
    locked := iff_of_false id nofun
    lockOther := fun thread hne => ?_
    position := fun l' h => by cases h
    frame := fun _ _ _ => ⟨rfl, rfl, fun _ _ => rfl, fun _ _ => rfl⟩
    own := fun n hn _ _ => ⟨hn, rfl⟩
    newNode := fun n ip h => by cases h
    live := fun n hn => ?_ }
  · rw [hlock]
    exact iff_of_false nofun fun h => hne (Option.some.inj h).symm
  · by_cases hmem : n ∈ xs
    · exact Or.inl hmem
    · exact Or.inr (Or.inr ⟨hmem, fun ip h => (by cases h), hn⟩)

/-- A call that does not need the lock returns. -/
theorem State.Inv.answer {r : Result} (ht : s.calls[t]? = some (c, .answer r)) :
    State.Inv in4Pton ((s.goto t c (.returned r)).record (.call t c r)) xs := by
  have hmeans : c.perform in4Pton (blacklistOf in4Pton s.history) =
      (r, blacklistOf in4Pton s.history) := hi.means t c _ ht _
  have hsame : blacklistOf in4Pton (s.history ++ [.call t c r]) =
      blacklistOf in4Pton s.history := by
    rw [blacklistOf_concat, Event.apply, hmeans]
  refine Change.inv (.returned r) hi ht {
    calls := rfl
    main := rfl
    active := rfl
    means := trivial
    holds := ?_
    history := Or.inr ⟨?_, rfl, ?_⟩
    locked := iff_of_false id fun h => (hi.locked t c _ ht).2 h
    lockOther := fun _ _ => Iff.rfl
    position := fun l' h => by cases h
    frame := fun _ _ _ => ⟨rfl, hsame, fun _ _ => rfl, fun _ _ => rfl⟩
    own := fun n hn _ _ => ⟨hn, rfl⟩
    newNode := fun n ip h => by cases h
    live := fun n hn => ?_ }
  · change Holds s.heap xs (blacklistOf in4Pton (s.history ++ [.call t c r]))
    rw [hsame]
    exact hi.holds
  · rw [hmeans]
    rfl
  · rw [hmeans]
    rfl
  · by_cases hmem : n ∈ xs
    · exact Or.inl hmem
    · exact Or.inr (Or.inr ⟨hmem, fun ip h => (by cases h), hn⟩)

/-- **A turn of a call.** -/
theorem State.Inv.turn (ht : s.calls[t]? = some (c, pc)) (hs : s.turn in4Pton t n c pc = some s') :
    ∃ xs', s'.Inv in4Pton xs' := by
  cases pc with
  | start =>
    obtain rfl := Option.some.inj hs
    obtain ⟨hmeans, hearly⟩ := begin_spec in4Pton c
    obtain ⟨hnew, hlocked, hresult, hloop⟩ := hearly.spec
    exact ⟨xs, hi.quiet ht rfl hmeans id hlocked hloop rfl hnew hresult⟩
  | kmalloc count ip fails =>
    cases fails with
    | true =>
      obtain rfl := Option.some.inj hs
      refine ⟨xs, hi.quiet ht rfl (fun blacklist => ?_) id id (fun l h => by cases h) rfl rfl rfl⟩
      exact hi.means t c _ ht blacklist
    | false =>
      obtain ⟨heap, halloc, rfl⟩ := Option.map_eq_some_iff.1 hs
      exact ⟨xs, hi.alloc ht halloc⟩
  | answer r =>
    obtain rfl := Option.some.inj hs
    exact ⟨xs, hi.answer ht⟩
  | spinLock w =>
    rw [State.turn] at hs
    split at hs
    · rename_i hlock
      obtain ⟨l, henter, hwork, hl⟩ := w.enter_spec hi.holds
      rw [henter] at hs
      obtain rfl := Option.some.inj hs
      exact ⟨xs, hi.enter ht hlock hwork hl⟩
    · cases hs
  | loop l =>
    obtain ⟨seen, rest, hsplit,
      ⟨a, rest', l', rfl, hturn, hwork, hl⟩ | ⟨h', xs', r, hturn, hends⟩⟩ := hi.turn_loop ht
    · rw [State.turn, hturn] at hs
      obtain rfl := Option.some.inj hs
      exact ⟨xs, hi.continue ht (by rw [hsplit]; simp) hwork hl⟩
    · rw [State.turn, hturn] at hs
      obtain rfl := Option.some.inj hs
      exact ⟨xs', hi.ends ht (hsplit ▸ hends)⟩
  | spinUnlock r =>
    obtain rfl := Option.some.inj hs
    exact ⟨xs, hi.unlock ht⟩
  | returned r => cases hs
  | oops => cases hs

end Turns

section Main

variable (hi : s.Inv in4Pton xs)

include hi

/-- `init_main` and `cleanup_main` get to another place without the lock. -/
theorem State.Inv.goto_main {main : Main} (hlocked : ¬ s.main.Locked) (hlocked' : ¬ main.Locked)
    (hinv : main.Inv s.heap xs (blacklistOf in4Pton s.history))
    (hclosed : main.Closed → s.inUse = false) : State.Inv in4Pton { s with main } xs :=
  { hi with
    mainLocked := iff_of_false hlocked' fun h => hlocked (hi.mainLocked.2 h)
    mainInv := hinv
    closed := hclosed }

theorem State.Inv.mainTurn (hs : s.mainTurn = some s') : ∃ xs', s'.Inv in4Pton xs' := by
  rw [State.mainTurn] at hs
  cases hmain : s.main with
  | procRemove ret =>
    rw [hmain] at hs
    simp only at hs
    split at hs
    · cases hs
    · rename_i hinUse
      obtain rfl := Option.some.inj hs
      refine ⟨xs, hi.goto_main (by rw [hmain]; exact id) id trivial fun _ => ?_⟩
      simpa using hinUse
  | live =>
    rw [hmain] at hs
    obtain rfl := Option.some.inj hs
    exact ⟨xs, hi.goto_main (by rw [hmain]; exact id) id trivial fun h => h.elim⟩
  | hookUnregistered =>
    rw [hmain] at hs
    simp only at hs
    split at hs
    · cases hs
    · rename_i hinUse
      obtain rfl := Option.some.inj hs
      refine ⟨xs, hi.goto_main (by rw [hmain]; exact id) id trivial fun _ => ?_⟩
      simpa using hinUse
  | spinLock =>
    rw [hmain] at hs
    simp only at hs
    split at hs
    · rename_i hlock
      obtain ⟨entry, hentry, hp⟩ := hi.holds.position_first
      obtain ⟨tmp, htmp⟩ := Option.isSome_iff_exists.1 (hp.isSome_next hi.holds)
      rw [hentry, Option.bind_some, htmp, Option.map_some] at hs
      obtain rfl := Option.some.inj hs
      refine ⟨xs, { hi with
        locked := fun t c pc ht => ?_
        holder := fun t h => by cases h
        mainLocked := iff_of_true trivial rfl
        mainInv := ⟨hp, htmp⟩
        closed := fun _ => hi.closed (by rw [hmain]; trivial) }⟩
      rw [hi.locked t c pc ht, hlock]
      simp
    · cases hs
  | loop entry tmp =>
    rw [hmain] at hs
    simp only at hs
    have hlock : s.lock = some .main := hi.mainLocked.1 (by rw [hmain]; trivial)
    have hinUse : s.inUse = false := hi.closed (by rw [hmain]; trivial)
    have hinv : ClearInv s.heap xs (blacklistOf in4Pton s.history) entry tmp := by
      have h := hi.mainInv
      rwa [hmain] at h
    -- no call is in its section, and none has a node of its own
    have hloop : ∀ (t : ℕ) (c : Call) (l : Loop), s.calls[t]? ≠ some (c, .loop l) := by
      intro t c l ht
      have h := (hi.locked t c _ ht).1 trivial
      rw [hlock] at h
      cases h
    rcases clearTurn_spec hi.holds hinv with ⟨hxs, hempty, hturn⟩ |
      ⟨m, xs', a, rest, h', next, rfl, hlist, hturn, hholds, hinv', hdata⟩
    · rw [hturn] at hs
      obtain rfl := Option.some.inj hs
      exact ⟨xs, { hi with
        mainLocked := iff_of_true trivial hlock
        mainInv := hempty
        closed := fun _ => hinUse }⟩
    · rw [hturn] at hs
      obtain rfl := Option.some.inj hs
      have hm : m ∉ xs' := (List.nodup_cons.1 hi.holds.ring.nodup).1
      refine ⟨xs', { hi with
        holds := ?_
        legal := legal_concat_freed hi.legal
        mainLocked := iff_of_true trivial hlock
        position := fun t c l ht => absurd ht (hloop t c l)
        mainInv := ?_
        own := fun t c pc n ip ht hnew => ?_
        live := fun n hn => ?_
        closed := fun _ => hinUse
        records := fun t => ?_ }⟩
      · change Holds h' xs' (blacklistOf in4Pton (s.history ++ [.freed]))
        rw [blacklistOf_concat, hlist]
        exact hholds
      · change ClearInv h' xs' (blacklistOf in4Pton (s.history ++ [.freed])) tmp next
        rw [blacklistOf_concat, hlist]
        exact hinv'
      · obtain ⟨hmem, hold⟩ := hi.own t c pc n ip ht hnew
        rw [List.mem_cons, not_or] at hmem
        refine ⟨hmem.2, ?_⟩
        change h'.data n = some ip
        rw [hdata, Function.update_of_ne hmem.1]
        exact hold
      · change (h'.data n).isSome at hn
        have hne : n ≠ m := by
          rintro rfl
          rw [hdata, Function.update_self] at hn
          cases hn
        rw [hdata, Function.update_of_ne hne] at hn
        rcases hi.live n hn with hmem | hown
        · exact Or.inl ((List.mem_cons.1 hmem).resolve_left hne)
        · exact Or.inr hown
      · refine (?_ : recordsOf t (s.history ++ [.freed]) = _).trans (hi.records t)
        simp [recordsOf]
  | spinUnlock =>
    rw [hmain] at hs
    obtain rfl := Option.some.inj hs
    have hlock : s.lock = some .main := hi.mainLocked.1 (by rw [hmain]; trivial)
    have hempty : blacklistOf in4Pton s.history = [] := by
      have h := hi.mainInv
      rwa [hmain] at h
    refine ⟨xs, { hi with
      locked := fun t c pc ht => ?_
      holder := fun t h => by cases h
      mainLocked := iff_of_false id (by simp)
      mainInv := hempty
      closed := fun _ => hi.closed (by rw [hmain]; trivial) }⟩
    rw [hi.locked t c pc ht, hlock]
    exact iff_of_false (by simp) (by simp)
  | _ =>
    rw [hmain] at hs
    cases hs

/-- A call begins. -/
theorem State.Inv.call (hoffers : s.main.offers c = true) :
    State.Inv in4Pton { s with calls := s.calls ++ [(c, .start)] } xs := by
  have hget : ∀ (t : ℕ) (c' : Call) (pc : Pc), (s.calls ++ [(c, .start)])[t]? = some (c', pc) →
      s.calls[t]? = some (c', pc) ∨ t = s.calls.length ∧ pc = .start := by
    intro t c' pc h
    rcases Nat.lt_trichotomy t s.calls.length with hlt | heq | hgt
    · rw [List.getElem?_append_left hlt] at h
      exact Or.inl h
    · subst heq
      rw [List.getElem?_concat_length] at h
      cases h
      exact Or.inr ⟨rfl, rfl⟩
    · rw [List.getElem?_eq_none (by simp; omega)] at h
      cases h
  have hold : ∀ (t : ℕ) (x : Call × Pc), s.calls[t]? = some x →
      (s.calls ++ [(c, .start)])[t]? = some x := by
    intro t x h
    rw [List.getElem?_append_left (List.getElem?_eq_some_iff.1 h).1, h]
  refine { hi with
    means := fun t c' pc h => ?_
    locked := fun t c' pc h => ?_
    holder := fun t h => ?_
    position := fun t c' l h => ?_
    own := fun t c' pc n ip h hnew => ?_
    ownUnique := fun t₁ t₂ c₁ c₂ pc₁ pc₂ n ip₁ ip₂ h₁ h₂ hnew₁ hnew₂ => ?_
    live := fun n hn => ?_
    closed := fun h => ?_
    records := fun t => ?_ }
  · rcases hget t c' pc h with h | ⟨-, rfl⟩
    · exact hi.means t c' pc h
    · trivial
  · rcases hget t c' pc h with h | ⟨rfl, rfl⟩
    · exact hi.locked t c' pc h
    · exact iff_of_false id fun h => absurd (hi.holder _ h) (lt_irrefl _)
  · exact (hi.holder t h).trans_le (by simp)
  · rcases hget t c' _ h with h | ⟨-, h⟩
    · exact hi.position t c' l h
    · cases h
  · rcases hget t c' pc h with h | ⟨-, rfl⟩
    · exact hi.own t c' pc n ip h hnew
    · cases hnew
  · rcases hget t₁ c₁ pc₁ h₁ with h₁ | ⟨-, rfl⟩
    · rcases hget t₂ c₂ pc₂ h₂ with h₂ | ⟨-, rfl⟩
      · exact hi.ownUnique t₁ t₂ c₁ c₂ pc₁ pc₂ n ip₁ ip₂ h₁ h₂ hnew₁ hnew₂
      · cases hnew₂
    · cases hnew₁
  · rcases hi.live n hn with hmem | ⟨t, c', pc, ip, h, hnew⟩
    · exact Or.inl hmem
    · exact Or.inr ⟨t, c', pc, ip, hold t _ h, hnew⟩
  · exfalso
    cases hmain : s.main <;> simp_all [Main.offers, Main.Closed]
  · refine (hi.records t).trans ?_
    rcases Nat.lt_trichotomy t s.calls.length with hlt | heq | hgt
    · rw [List.getElem?_append_left hlt]
    · subst heq
      rw [List.getElem?_concat_length, List.getElem?_eq_none le_rfl]
      rfl
    · rw [List.getElem?_eq_none hgt.le, List.getElem?_eq_none (by simp; omega)]

/-- **Every step keeps the invariant.** -/
theorem State.Inv.step {a : Action} (hs : step in4Pton s a = some s') :
    ∃ xs', s'.Inv in4Pton xs' := by
  cases a with
  | procCreate fails =>
    rw [Netfilter.step] at hs
    split at hs
    · rename_i hmain
      obtain rfl := Option.some.inj hs
      have hlocked : ¬ s.main.Locked := by
        rw [hmain]
        exact id
      have hinUse := hi.closed (by rw [hmain]; trivial)
      cases fails with
      | true => exact ⟨xs, hi.goto_main hlocked id trivial fun _ => hinUse⟩
      | false => exact ⟨xs, hi.goto_main hlocked id trivial fun _ => hinUse⟩
    · cases hs
  | registerHook ret =>
    rw [Netfilter.step] at hs
    split at hs
    · rename_i hmain
      obtain rfl := Option.some.inj hs
      have hlocked : ¬ s.main.Locked := by
        rw [hmain]
        exact id
      by_cases hret : ret = 0
      · rw [if_pos hret]
        exact ⟨xs, hi.goto_main hlocked id trivial fun h => h.elim⟩
      · rw [if_neg hret]
        exact ⟨xs, hi.goto_main hlocked id trivial fun h => h.elim⟩
    · cases hs
  | main => exact hi.mainTurn hs
  | call c =>
    rw [Netfilter.step] at hs
    split at hs
    · rename_i hoffers
      obtain rfl := Option.some.inj hs
      exact ⟨xs, hi.call hoffers⟩
    · cases hs
  | turn t n =>
    rw [Netfilter.step] at hs
    split at hs
    · cases hs
    · rename_i c pc ht
      exact hi.turn ht hs

end Main

theorem State.inv_init (in4Pton : List UInt8 → Option Addr) : State.init.Inv in4Pton [] where
  holds := ⟨isList_init ℕ Addr, rfl⟩
  legal before t c r h := by
    have hnil := List.prefix_nil.1 h
    simp at hnil
  means t c pc h := by cases h
  locked t c pc h := by cases h
  holder t h := by cases h
  mainLocked := iff_of_false id nofun
  position t c l h := by cases h
  mainInv := trivial
  own t c pc n ip h := by cases h
  ownUnique t₁ t₂ c₁ c₂ pc₁ pc₂ n ip₁ ip₂ h₁ := by cases h₁
  live n h := by cases h
  closed _ := rfl
  records t := rfl

theorem exists_inv {actions : List Action} {s : State}
    (h : runFrom (step in4Pton) State.init actions = some s) : ∃ xs, s.Inv in4Pton xs :=
  runFrom_invariant (P := fun s : State => ∃ xs, s.Inv in4Pton xs)
    (fun _ _ _ ⟨_, hi⟩ hs => hi.step hs) ⟨[], State.inv_init in4Pton⟩ h

/-! ## The history only grows -/

theorem turn_history (hs : s.turn in4Pton t n c pc = some s') : s.history <+: s'.history := by
  have hsame := List.prefix_refl s.history
  have hrecord : ∀ e, s.history <+: s.history ++ [e] := fun e => List.prefix_append _ _
  cases pc with
  | kmalloc count ip fails =>
    cases fails with
    | true =>
      obtain rfl := Option.some.inj hs
      exact hsame
    | false =>
      obtain ⟨heap, -, rfl⟩ := Option.map_eq_some_iff.1 hs
      exact hsame
  | _ => grind [State.turn, State.goto, State.record]

theorem mainTurn_history (hs : s.mainTurn = some s') : s.history <+: s'.history := by
  have hsame := List.prefix_refl s.history
  have hrecord : ∀ e, s.history <+: s.history ++ [e] := fun e => List.prefix_append _ _
  grind [State.mainTurn, State.record]

theorem step_history {a : Action} (hs : step in4Pton s a = some s') :
    s.history <+: s'.history := by
  cases a with
  | main => exact mainTurn_history hs
  | turn t n =>
    rw [step] at hs
    split at hs
    · cases hs
    · exact turn_history hs
  | _ => grind [step]

theorem history_mono {actions later : List Action} {s s' : State}
    (h : runFrom (step in4Pton) State.init actions = some s)
    (h' : runFrom (step in4Pton) State.init (actions ++ later) = some s') :
    s.history <+: s'.history := by
  rw [runFrom_append, h, Option.bind_some] at h'
  exact runFrom_invariant (P := fun s' : State => s.history <+: s'.history)
    (fun _ _ _ hp hs => hp.trans (step_history hs)) (List.prefix_refl _) h'

/-- Only `blacklist_write` has a node of its own. -/
theorem usesFile_of_newNode {ip : Addr} (hmeans : pc.Means in4Pton c)
    (hnew : pc.newNode = some (n, ip)) : c.usesFile = true := by
  cases c with
  | blacklistWrite c => rfl
  | blacklistRead c ppos => rfl
  | hookFuncIn skb =>
    exfalso
    cases pc with
    | spinLock w =>
      cases w with
      | add count newNode ip => cases hmeans []
      | _ => cases hnew
    | loop l =>
      cases l with
      | add count newNode ip entry => cases hmeans []
      | _ => cases hnew
    | _ => cases hnew

/-- No access of a call has gone wrong. -/
theorem State.Inv.ne_oops (hi : s.Inv in4Pton xs) {x : Call × Pc} (hx : x ∈ s.calls) :
    x.2 ≠ .oops := by
  intro hoops
  obtain ⟨c, pc⟩ := x
  obtain rfl : pc = .oops := hoops
  obtain ⟨t, ht⟩ := List.mem_iff_getElem?.1 hx
  exact hi.means t c .oops ht

theorem State.Inv.main_ne_oops (hi : s.Inv in4Pton xs) : s.main ≠ .oops := by
  intro hoops
  have hmain := hi.mainInv
  rw [hoops] at hmain
  exact hmain

/-! ## Main results -/

/-- **The calls are linearizable**: in every interleaving no access goes wrong, at most one thread
is in its section, a call is recorded once, when it takes effect, with the result that it has on
its own at its place in the history, and the ring holds the blacklist of this history. -/
theorem linearizable {actions : List Action} {s : State}
    (h : runFrom (step in4Pton) State.init actions = some s) :
    (∀ x ∈ s.calls, x.2 ≠ .oops) ∧ s.main ≠ .oops ∧
      (∀ (t t' : ℕ) (c c' : Call) (pc pc' : Pc), s.calls[t]? = some (c, pc) →
        s.calls[t']? = some (c', pc') → pc.Locked → pc'.Locked → t = t' ∧ ¬ s.main.Locked) ∧
      Legal in4Pton s.history ∧
      (∀ (t : ℕ) (c : Call) (pc : Pc), s.calls[t]? = some (c, pc) →
        recordsOf t s.history = (pc.result.map fun r => (c, r)).toList) ∧
      (∀ earlier later s₀, actions = earlier ++ later →
        runFrom (step in4Pton) State.init earlier = some s₀ → s₀.history <+: s.history) ∧
      ∃ xs, Holds s.heap xs (blacklistOf in4Pton s.history) := by
  obtain ⟨xs, hi⟩ := exists_inv h
  refine ⟨fun x hx => hi.ne_oops hx, hi.main_ne_oops,
    fun t t' c c' pc pc' ht ht' hl hl' => ?_, hi.legal, fun t c pc ht => ?_,
    fun earlier later s₀ heq h₀ => ?_, xs, hi.holds⟩
  · have hlock := (hi.locked t c pc ht).1 hl
    have hlock' := (hi.locked t' c' pc' ht').1 hl'
    rw [hlock] at hlock'
    cases hlock'
    refine ⟨rfl, fun hmain => ?_⟩
    rw [hi.mainLocked.1 hmain] at hlock
    cases hlock
  · rw [hi.records t, ht]
    rfl
  · subst heq
    exact history_mono h₀ h

/-- A write of a text, in which nothing fails. -/
def Call.write (text : String) : Call := .blacklistWrite ⟨ascii text, false, false⟩

/-- The hook call for a packet to an address. -/
def Call.packetTo (os : List ℕ) : Call := .hookFuncIn (some ⟨some ⟨ofOctets os⟩⟩)

/-- An address is put on the empty list. -/
def addRun : List Action :=
  [.procCreate false, .registerHook 0, .call (.write "+1.2.3.4"), .turn 0 0, .turn 0 7, .turn 0 0,
    .turn 0 0, .turn 0 0]

/-- Two hook calls and a removal overlap, on a list with their address. -/
def removalRun : List Action :=
  addRun ++ [.call (.packetTo [1, 2, 3, 4]), .call (.write "-1.2.3.4"),
    .call (.packetTo [1, 2, 3, 4]), .turn 1 0, .turn 2 0, .turn 3 0, .turn 1 0, .turn 1 0,
    .turn 1 0, .turn 2 0, .turn 2 0, .turn 2 0, .turn 3 0, .turn 3 0]

theorem linearizable_hook : ∃ s, runFrom (step dottedQuad) State.init removalRun = some s ∧
    s.history = [.call 0 (.write "+1.2.3.4") (.wrote 8),
      .call 1 (.packetTo [1, 2, 3, 4]) (.action .NF_DROP),
      .call 2 (.write "-1.2.3.4") (.wrote 8),
      .call 3 (.packetTo [1, 2, 3, 4]) (.action .NF_ACCEPT)] ∧
    s.lock = some (.call 3) ∧ Legal dottedQuad s.history ∧ ∃ xs, Holds s.heap xs [] := by
  obtain ⟨s, h, hhistory, hlock⟩ : ∃ s, runFrom (step dottedQuad) State.init removalRun = some s ∧
      s.history = [.call 0 (.write "+1.2.3.4") (.wrote 8),
        .call 1 (.packetTo [1, 2, 3, 4]) (.action .NF_DROP),
        .call 2 (.write "-1.2.3.4") (.wrote 8),
        .call 3 (.packetTo [1, 2, 3, 4]) (.action .NF_ACCEPT)] ∧
      s.lock = some (.call 3) := ⟨_, rfl, rfl, rfl⟩
  obtain ⟨-, -, -, hlegal, -, -, xs, hholds⟩ := linearizable h
  have hempty : blacklistOf dottedQuad s.history = [] := by
    rw [hhistory]
    rfl
  exact ⟨s, h, hhistory, hlock, hlegal, xs, hempty ▸ hholds⟩

/-- While no read or write of the file is in progress, the nodes are those of the ring. -/
theorem State.Inv.mem_of_closed (hi : s.Inv in4Pton xs) (hclosed : s.main.Closed)
    (hn : (s.heap.data n).isSome) : n ∈ xs := by
  rcases hi.live n hn with hmem | ⟨t, c, pc, ip, ht, hnew⟩
  · exact hmem
  · have hactive : pc.isReturned = false := by
      cases pc <;> first | rfl | cases hnew
    have hfile := not_usesFile_of_inUse (hi.closed hclosed) ht hactive
    rw [usesFile_of_newNode (hi.means t c pc ht) hnew] at hfile
    cases hfile

/-- **The nodes are accounted for**: no `kfree` and no other access hits a node that is not
allocated, so none is freed twice. Each one that is allocated is in the ring, which holds the
blacklist, or the new node of one call that has not linked it yet. When the file is gone, the nodes
are those of the ring: none after `cleanup_main`, but after an `init_main` that fails with the file
in place those of the entries written meanwhile. -/
theorem nodes_accounted {actions : List Action} {s : State}
    (h : runFrom (step in4Pton) State.init actions = some s) :
    (∀ x ∈ s.calls, x.2 ≠ .oops) ∧ s.main ≠ .oops ∧
      (∃ xs, Holds s.heap xs (blacklistOf in4Pton s.history) ∧
        (∀ n, (s.heap.nodes n).isSome ↔ n ∈ xs ∨
          ∃ (t : ℕ) (c : Call) (pc : Pc) (ip : Addr), s.calls[t]? = some (c, pc) ∧
            pc.newNode = some (n, ip)) ∧
        (∀ (t : ℕ) (c : Call) (pc : Pc) (n : ℕ) (ip : Addr), s.calls[t]? = some (c, pc) →
          pc.newNode = some (n, ip) → n ∉ xs ∧
            ∀ (t' : ℕ) (c' : Call) (pc' : Pc) (ip' : Addr), s.calls[t']? = some (c', pc') →
              pc'.newNode = some (n, ip') → t' = t) ∧
        (s.main.Closed → ∀ n, (s.heap.nodes n).isSome ↔ n ∈ xs)) ∧
      (s.main = .gone → ∀ n, s.heap.nodes n = none) := by
  obtain ⟨xs, hi⟩ := exists_inv h
  have hdata : ∀ n, (s.heap.data n).isSome ↔ (s.heap.nodes n).isSome := fun n => by
    simp [Heap.data]
  have hclosed : s.main.Closed → ∀ n, (s.heap.nodes n).isSome ↔ n ∈ xs := fun hmain n => by
    rw [← hdata]
    exact ⟨hi.mem_of_closed hmain, hi.holds.ring.isSome_data⟩
  refine ⟨fun x hx => hi.ne_oops hx, hi.main_ne_oops, ⟨xs, hi.holds, fun n => ?_,
    fun t c pc n ip ht hnew => ?_, hclosed⟩, fun hgone n => ?_⟩
  · rw [← hdata]
    refine ⟨hi.live n, ?_⟩
    rintro (hn | ⟨t, c, pc, ip, ht, hnew⟩)
    · exact hi.holds.ring.isSome_data hn
    · exact Option.isSome_of_eq_some (hi.own t c pc n ip ht hnew).2
  · exact ⟨(hi.own t c pc n ip ht hnew).1, fun t' c' pc' ip' ht' hnew' =>
      hi.ownUnique t' t c' c pc' pc n ip' ip ht' ht hnew' hnew⟩
  · have hempty : blacklistOf in4Pton s.history = [] := by
      have hmain := hi.mainInv
      rwa [hgone] at hmain
    have hxs : xs = [] := by
      have hlen := hi.holds.data
      rw [hempty] at hlen
      simpa using hlen
    have hn := hclosed (by rw [hgone]; trivial) n
    rw [hxs] at hn
    simpa using hn

/-- An address is written twice, so that one node is freed at once, and `cleanup_main` frees the
other one. -/
def cleanupRun : List Action :=
  [.procCreate false, .registerHook 0, .call (.write "+1.2.3.4"), .call (.write "+1.2.3.4"),
    .turn 0 0, .turn 0 7, .turn 1 0, .turn 1 8, .turn 0 0, .turn 0 0, .turn 0 0, .turn 1 0,
    .turn 1 0, .turn 1 0, .main, .main, .main, .main, .main, .main]

/-- An address is written before `init_main` fails to register the hook. -/
def refusedRun : List Action :=
  [.procCreate false, .call (.write "+1.2.3.4"), .turn 0 0, .turn 0 7, .turn 0 0, .turn 0 0,
    .turn 0 0, .registerHook (-22), .main]

theorem nodes_accounted_cleanup :
    (∃ s, runFrom (step dottedQuad) State.init cleanupRun = some s ∧
      s.history.length = 3 ∧ ∀ n, s.heap.nodes n = none) ∧
    ∃ s, runFrom (step dottedQuad) State.init refusedRun = some s ∧
      ∃ xs, Holds s.heap xs [ofOctets [1, 2, 3, 4]] ∧ ∀ n, (s.heap.nodes n).isSome ↔ n ∈ xs := by
  constructor
  · have h : runFrom (step dottedQuad) State.init cleanupRun = some _ := rfl
    exact ⟨_, h, rfl, (nodes_accounted h).2.2.2 rfl⟩
  · obtain ⟨s, h, hhistory, hmain⟩ : ∃ s, runFrom (step dottedQuad) State.init refusedRun =
        some s ∧ s.history = [.call 0 (.write "+1.2.3.4") (.wrote 8)] ∧ s.main = .refused (-22) :=
      ⟨_, rfl, rfl, rfl⟩
    obtain ⟨-, -, ⟨xs, hholds, -, -, hclosed⟩, -⟩ := nodes_accounted h
    rw [hhistory] at hholds
    exact ⟨s, h, xs, hholds, hclosed (by rw [hmain]; trivial)⟩

/-! ## Every section ends -/

/-- The next turn of the holder of the lock. -/
def Thread.next : Thread → Action
  | .call t => .turn t 0
  | .main => .main

/-- One more turn in front. -/
theorem runFrom_replicate_succ {a : Action} {m : ℕ} {u : State} (hs : step in4Pton s a = some s')
    (h : runFrom (step in4Pton) s' (List.replicate m a) = some u) :
    runFrom (step in4Pton) s (List.replicate (m + 1) a) = some u := by
  rw [List.replicate_succ, runFrom_cons, hs]
  exact h

/-- The last pass of a section, and the release of the lock. -/
theorem last_turns {l : Loop} {heap : IpHeap} {r : Result} (ht : s.calls[t]? = some (c, .loop l))
    (hturn : l.turn s.heap = some (heap, .inr r)) :
    ∃ s', runFrom (step in4Pton) s (List.replicate 2 (.turn t 0)) = some s' ∧ s'.lock = none := by
  have hlt : t < s.calls.length := (List.getElem?_eq_some_iff.1 ht).1
  set s₁ := { s.goto t c (.spinUnlock r) with heap }.record (.call t c r) with hs₁
  have hfirst : step in4Pton s (.turn t 0) = some s₁ := by
    simp only [step, ht, State.turn, hturn, hs₁]
  have hget : s₁.calls[t]? = some (c, .spinUnlock r) := List.getElem?_set_self hlt
  have hsecond : step in4Pton s₁ (.turn t 0) =
      some { s₁.goto t c (.returned r) with lock := none } := by
    simp only [step, hget, State.turn]
  exact ⟨_, runFrom_replicate_succ hfirst ((runFrom_singleton _ _ _).trans hsecond), rfl⟩

/-- A call in its loop needs a turn for each entry before it, and two more. -/
theorem call_section_ends {l : Loop} {seen rest : List Addr} (hi : s.Inv in4Pton xs)
    (ht : s.calls[t]? = some (c, .loop l))
    (hsplit : blacklistOf in4Pton s.history = seen ++ rest) (hl : l.Inv s.heap xs seen rest) :
    ∃ m ≤ rest.length + 2, ∃ s',
      runFrom (step in4Pton) s (List.replicate m (.turn t 0)) = some s' ∧ s'.lock = none := by
  induction rest generalizing s l seen with
  | nil =>
    rcases Loop.turn_spec (hsplit ▸ hi.holds) hl fun n ip hnew => hi.own t c _ n ip ht hnew with
      ⟨a, rest', l', hrest, -⟩ | ⟨h', xs', r, hturn, -⟩
    · cases hrest
    · exact ⟨2, by simp, last_turns ht hturn⟩
  | cons a rest ih =>
    rcases Loop.turn_spec (hsplit ▸ hi.holds) hl fun n ip hnew => hi.own t c _ n ip ht hnew with
      ⟨a', rest', l', hrest, hturn, hwork, hl'⟩ | ⟨h', xs', r, hturn, -⟩
    · obtain ⟨rfl, rfl⟩ := List.cons.inj hrest
      have hsplit' : blacklistOf in4Pton s.history = (seen ++ [a]) ++ rest := by
        rw [hsplit, List.append_assoc, List.singleton_append]
      have hlt : t < s.calls.length := (List.getElem?_eq_some_iff.1 ht).1
      obtain ⟨m, hm, s', hrun, hlock⟩ := ih (hi.continue ht hsplit' hwork hl')
        (List.getElem?_set_self hlt) hsplit' hl'
      refine ⟨m + 1, by rw [List.length_cons]; omega, s', ?_, hlock⟩
      refine runFrom_replicate_succ ?_ hrun
      simp only [step, ht, State.turn, hturn]
      rfl
    · exact ⟨2, by simp, last_turns ht hturn⟩

/-- `cleanup_main` needs a turn for each entry, and two more. -/
theorem clear_section_ends {entry tmp : IpPtr} {blacklist : List Addr} (hi : s.Inv in4Pton xs)
    (hmain : s.main = .loop entry tmp) (hlist : blacklistOf in4Pton s.history = blacklist) :
    ∃ m ≤ blacklist.length + 2, ∃ s',
      runFrom (step in4Pton) s (List.replicate m .main) = some s' ∧ s'.lock = none := by
  induction blacklist generalizing s xs entry tmp with
  | nil =>
    have hinv := hi.mainInv
    rw [hmain] at hinv
    rcases clearTurn_spec hi.holds hinv with ⟨-, -, hturn⟩ | ⟨m, xs', a, rest, h', next, -, hne, -⟩
    · have hfirst : step in4Pton s .main = some { s with main := .spinUnlock } := by
        simp only [step, State.mainTurn, hmain, hturn]
      refine ⟨2, by simp, { s with main := .gone, lock := none }, ?_, rfl⟩
      exact runFrom_replicate_succ hfirst (runFrom_singleton _ _ _)
    · rw [hlist] at hne
      cases hne
  | cons a rest ih =>
    have hinv := hi.mainInv
    rw [hmain] at hinv
    rcases clearTurn_spec hi.holds hinv with
      ⟨-, hempty, -⟩ | ⟨m, xs', a', rest', h', next, rfl, heq, hturn, -⟩
    · rw [hlist] at hempty
      cases hempty
    · have hfirst : step in4Pton s .main =
          some ({ s with heap := h', main := .loop tmp next }.record .freed) := by
        simp only [step, State.mainTurn, hmain, hturn]
      obtain ⟨xs₁, hi₁⟩ := hi.step hfirst
      obtain ⟨k, hk, s', hrun, hlock⟩ := ih hi₁ rfl (by
        change blacklistOf in4Pton (s.history ++ [.freed]) = rest
        rw [blacklistOf_concat, hlist]
        rfl)
      refine ⟨k + 1, by rw [List.length_cons]; omega, s', ?_, hlock⟩
      exact runFrom_replicate_succ hfirst hrun

/-- **Every section ends**: the holder of the lock releases it after at most one turn for each entry
of the list, and two more. -/
theorem section_ends {actions : List Action} {s : State}
    (h : runFrom (step in4Pton) State.init actions = some s) {thread : Thread}
    (hlock : s.lock = some thread) :
    ∃ m ≤ (blacklistOf in4Pton s.history).length + 2, ∃ s',
      runFrom (step in4Pton) s (List.replicate m thread.next) = some s' ∧ s'.lock = none := by
  obtain ⟨xs, hi⟩ := exists_inv h
  cases thread with
  | call t =>
    obtain ⟨⟨c, pc⟩, ht⟩ : ∃ x, s.calls[t]? = some x :=
      ⟨_, List.getElem?_eq_getElem (hi.holder t hlock)⟩
    have hlocked : pc.Locked := (hi.locked t c pc ht).2 hlock
    cases pc with
    | loop l =>
      obtain ⟨seen, rest, hsplit, hl⟩ := hi.position t c l ht
      obtain ⟨m, hm, hends⟩ := call_section_ends hi ht hsplit hl
      refine ⟨m, hm.trans ?_, hends⟩
      rw [hsplit, List.length_append]
      omega
    | spinUnlock r =>
      refine ⟨1, by omega, { s.goto t c (.returned r) with lock := none }, ?_, rfl⟩
      refine (runFrom_singleton _ _ _).trans ?_
      simp only [Thread.next, step, ht, State.turn]
    | _ => exact hlocked.elim
  | main =>
    have hlocked : s.main.Locked := hi.mainLocked.2 hlock
    cases hmain : s.main with
    | loop entry tmp => exact clear_section_ends hi hmain rfl
    | spinUnlock =>
      refine ⟨1, by omega, { s with main := .gone, lock := none }, ?_, rfl⟩
      refine (runFrom_singleton _ _ _).trans ?_
      simp only [Thread.next, step, State.mainTurn, hmain]
    | _ =>
      rw [hmain] at hlocked
      exact hlocked.elim

/-- A hook call gets to the one entry of the list, and a removal waits for the lock. -/
def waitingRun : List Action :=
  addRun ++ [.call (.write "-1.2.3.4"), .call (.packetTo [8, 8, 8, 8]), .turn 1 0, .turn 2 0,
    .turn 2 0]

theorem section_ends_hook : ∃ s, runFrom (step dottedQuad) State.init waitingRun = some s ∧
    s.lock = some (.call 2) ∧ step dottedQuad s (.turn 1 0) = none ∧
    ∃ m ≤ 3, ∃ s', runFrom (step dottedQuad) s (List.replicate m (.turn 2 0)) = some s' ∧
      s'.lock = none := by
  obtain ⟨s, h, hhistory, hlock, hwaits⟩ : ∃ s,
      runFrom (step dottedQuad) State.init waitingRun = some s ∧
      s.history = [.call 0 (.write "+1.2.3.4") (.wrote 8)] ∧ s.lock = some (.call 2) ∧
      step dottedQuad s (.turn 1 0) = none := ⟨_, rfl, rfl, rfl, rfl⟩
  have hends := section_ends h hlock
  rw [hhistory] at hends
  exact ⟨s, h, hlock, hwaits, hends⟩

end EltexPractice.Netfilter
