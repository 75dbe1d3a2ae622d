import EltexPractice.P2pChat.Queues

/-!
# Joining a chat

A process whose exclusive `mq_open` of `_1` fails with `EEXIST` opens `_1` and `_2` one after the
other, while the process it has found makes `_2` only after `_1`. So it is connected to that process
exactly when the creator was through with `init_chat_queues` when the joining process opened `_2`:
`joinedTo_iff`. Before, `_2` does not exist, or it is what an older creator is about to remove.
-/

namespace EltexPractice.P2pChat

namespace Proc

/-- `init_chat_queues` has returned 0, and the process sends into `_1` and receives from `_2` of the
process `c`. -/
def JoinedTo (base : BaseName) (π : Proc) (c : ℕ) : Prop :=
  π.pc = .ready ∧ π.session.txQ = some ⟨base.q1Name, c⟩ ∧ π.session.rxQ = some ⟨base.q2Name, c⟩

/-- The process has found existing queues and is about to make one of its two plain opens. -/
def Joining (π : Proc) : Prop := π.pc = .openFirst ∨ π.pc = .openSecond

/-- `init_chat_queues` has returned. -/
def Returned (π : Proc) : Prop := π.pc = .failed ∨ π.pc = .ready

/-- A process in this state never has a successful `init_chat_queues` ahead of it. -/
def Late (π : Proc) : Prop :=
  π.pc = .undoFirst ∨ π.pc = .failed ∨ π.pc = .unlinkFirst ∨ π.pc = .unlinkSecond ∨ π.pc = .done

end Proc

/-- From this state on, the process can complete `init_chat_queues` successfully, or has completed
it and not begun `cleanup_chat_queues`. -/
def Completes (base : BaseName) (s : System) (c : ℕ) : Prop :=
  ∃ bs t, runFrom (System.step base) s bs = some t ∧ (t.proc c).pc = .ready

section Late

variable {base : BaseName}

theorem Moves.late {mq mq' : Namespace (List UInt8) ℕ} {p : ℕ} {π π' : Proc}
    (h : Moves base mq p π mq' π') (hπ : π.Late) : π'.Late := by
  cases h <;> simp_all [Proc.Late]

theorem late_of_run {s t : System} {bs : List Action} {c : ℕ}
    (h : runFrom (System.step base) s bs = some t) (hs : (s.proc c).Late) : (t.proc c).Late := by
  refine runFrom_invariant (P := fun s => (s.proc c).Late) (fun s a s' hlate hstep => ?_) hs h
  obtain ⟨π, hmove, hproc⟩ := moves_of_step hstep
  rw [hproc]
  by_cases hc : c = a.proc
  · subst hc
    rw [Function.update_self]
    exact hmove.late hlate
  · rwa [Function.update_of_ne hc]

theorem Completes.not_late {s : System} {c : ℕ} (h : Completes base s c) : ¬ (s.proc c).Late := by
  obtain ⟨bs, t, hrun, ht⟩ := h
  intro hlate
  have := late_of_run hrun hlate
  simp [Proc.Late, ht] at this

end Late

/-! ## What a joining process has found -/

/-- What is known of the creator a process has found. -/
structure JoinInv (base : BaseName) (s : System) : Prop where
  inv : Inv base s
  found : ∀ j c, (s.proc j).found = some c → (s.proc c).session.isCreator = true
  sends : ∀ j c, (s.proc j).found = some c → (s.proc j).pc = .openSecond →
    s.mq base.q1Name = some c → (s.proc j).session.txQ = some ⟨base.q1Name, c⟩

section Invariant

variable {base : BaseName}

theorem Moves.isCreator {mq mq' : Namespace (List UInt8) ℕ} {p : ℕ} {π π' : Proc}
    (h : Moves base mq p π mq' π') (hπ : π.session.isCreator = true) :
    π'.session.isCreator = true := by
  cases h <;> simp_all

/-- A process learns of a creator only from the name `_1`. -/
theorem Moves.found {mq mq' : Namespace (List UInt8) ℕ} {p c : ℕ} {π π' : Proc}
    (h : Moves base mq p π mq' π') (hc : π'.found = some c) :
    π.found = some c ∨ mq base.q1Name = some c := by
  cases h
  case exists_ c' hpc hc' =>
    obtain rfl : c' = c := by simpa using hc
    exact Or.inr hc'
  all_goals exact Or.inl hc

/-- A process that has opened `_1` sends to the creator of that queue. -/
theorem Moves.sends {mq mq' : Namespace (List UInt8) ℕ} {p c : ℕ} {π π' : Proc}
    (h : Moves base mq p π mq' π') (hpc : π'.pc = .openSecond) (hc : mq' base.q1Name = some c) :
    π'.session.txQ = some ⟨base.q1Name, c⟩ := by
  cases h
  case openFirst c' hpc' hc' =>
    obtain rfl : c' = c := Option.some.inj (hc'.symm.trans hc)
    rfl
  case leave hpc' => by_cases hcr : π.session.isCreator = true <;> simp [hcr] at hpc
  all_goals simp_all

/-- A process gets the name `_1` only by its first call. -/
theorem Moves.gets_first {mq mq' : Namespace (List UInt8) ℕ} {p : ℕ} {π π' : Proc}
    (h : Moves base mq p π mq' π') (hp : mq' base.q1Name = some p) :
    mq base.q1Name = some p ∨ π.pc = .createFirst := by
  have hne := base.q1Name_ne_q2Name
  cases h <;> simp_all [Namespace.create_of_ne, Namespace.unlink_of_ne]

theorem joinInv_init (base : BaseName) : JoinInv base .init where
  inv := inv_init base
  found j c h := by cases h
  sends j c h := by cases h

theorem JoinInv.step {s s' : System} {a : Action} (h : JoinInv base s)
    (hs : System.step base s a = some s') : JoinInv base s' := by
  have hinv' := h.inv.step hs
  obtain ⟨π, hmove, hproc⟩ := moves_of_step hs
  have hself : s'.proc a.proc = π := by rw [hproc, Function.update_self]
  have hother : ∀ p, p ≠ a.proc → s'.proc p = s.proc p := fun p hp => by
    rw [hproc, Function.update_of_ne hp]
  have hcreator : ∀ c, (s.proc c).session.isCreator = true →
      (s'.proc c).session.isCreator = true := by
    intro c hc
    by_cases hca : c = a.proc
    · subst hca
      rw [hself]
      exact hmove.isCreator hc
    · rwa [hother c hca]
  refine ⟨hinv', fun j c hj => ?_, fun j c hj hpc hc => ?_⟩
  · by_cases hja : j = a.proc
    · subst hja
      rw [hself] at hj
      rcases hmove.found hj with hold | hname
      · exact hcreator c (h.found _ c hold)
      · exact hcreator c ((h.inv.role c).1 ((h.inv.first c).1 hname))
    · rw [hother j hja] at hj
      exact hcreator c (h.found j c hj)
  · by_cases hja : j = a.proc
    · subst hja
      rw [hself] at hpc ⊢
      exact hmove.sends hpc hc
    · rw [hother j hja] at hj hpc ⊢
      refine h.sends j c hj hpc ?_
      by_cases hca : c = a.proc
      · subst hca
        rcases hmove.gets_first hc with hname | hfirst
        · exact hname
        · have hfalse := (h.inv.role a.proc).2 (Or.inl hfirst)
          rw [h.found j _ hj] at hfalse
          cases hfalse
      · exact (hmove.first_other (h.inv.first a.proc) hca).1 hc

theorem joinInv_of_run {as : List Action} {s : System}
    (h : runFrom (System.step base) .init as = some s) : JoinInv base s :=
  runFrom_invariant (fun _ _ _ hI hs => hI.step hs) (joinInv_init base) h

/-! ## The law of joining -/

/-- The creator that a joining process has found is between the creation of `_1` and the beginning
of its cleanup. -/
theorem JoinInv.creator_pc {s : System} (h : JoinInv base s) {j c : ℕ}
    (hj : (s.proc j).found = some c) (hlate : ¬ (s.proc c).Late) :
    (s.proc c).pc = .createSecond ∨ (s.proc c).pc = .ready := by
  have hrole : (s.proc c).pc ≠ .createFirst ∧ (s.proc c).pc ≠ .openFirst ∧
      (s.proc c).pc ≠ .openSecond := by
    have hnot : ¬ ((s.proc c).pc = .createFirst ∨ (s.proc c).pc = .openFirst ∨
        (s.proc c).pc = .openSecond) := by
      intro hpc
      have hfalse := (h.inv.role c).2 hpc
      rw [h.found j c hj] at hfalse
      cases hfalse
    simpa [not_or] using hnot
  rw [Proc.Late] at hlate
  cases hpc : (s.proc c).pc <;> simp_all

/-- **The law of joining**: when a process that has found the `_1` queue of `c` returns from
`init_chat_queues`, and `c` completes its own `init_chat_queues` and has not begun to clean up, then
the process is connected to the queues of `c` exactly when `c` was through with its
`init_chat_queues` before the last call of the process, and that call was not refused. -/
theorem joinedTo_iff {as : List Action} {s s' : System}
    (h : runFrom (System.step base) .init as = some s) {j c : ℕ} {refused : Bool}
    (hs : System.step base s (.call j refused) = some s') (hfound : (s.proc j).found = some c)
    (hjoining : (s.proc j).Joining) (hreturned : (s'.proc j).Returned)
    (hcompletes : Completes base s' c) :
    (s'.proc j).JoinedTo base c ↔ ((s.proc c).pc = .ready ∧ refused = false) := by
  have hinv := joinInv_of_run h
  have hjc : c ≠ j := by
    rintro rfl
    have hfalse := (hinv.inv.role c).2 (Or.inr hjoining)
    rw [hinv.found c c hfound] at hfalse
    cases hfalse
  have hsame : s'.proc c = s.proc c := by
    obtain ⟨π, -, hproc⟩ := moves_of_step hs
    rw [hproc, Function.update_of_ne (show c ≠ Action.proc (.call j refused) from hjc)]
  have hcpc := hinv.creator_pc hfound (hsame ▸ hcompletes.not_late)
  have hcreator := hinv.found j c hfound
  have hfirst : s.mq base.q1Name = some c := by
    refine (hinv.inv.first c).2 ?_
    rcases hcpc with hcpc | hcpc
    · exact Or.inl hcpc
    · exact Or.inr (Or.inr (Or.inr ⟨hcpc, hcreator⟩))
  have hsecond : s.mq base.q2Name = some c ↔ (s.proc c).pc = .ready := by
    rw [hinv.inv.second c, Proc.OwnsSecond]
    rcases hcpc with hcpc | hcpc <;> simp [hcpc, hcreator]
  simp only [System.step, System.call] at hs
  rcases hjoining with hpc | hpc
  · -- the first plain open finds the queue of `c`, so it ends the call only when refused
    simp only [hpc, hfirst] at hs
    split at hs <;> obtain rfl := Option.some.inj hs
    · rename_i hrefused
      simp [Proc.JoinedTo, hrefused]
    · simp [Proc.Returned] at hreturned
  · have hsends := hinv.sends j c hfound hpc hfirst
    rw [← hsecond]
    simp only [hpc] at hs
    split at hs
    · rename_i c' hc'
      split at hs <;> obtain rfl := Option.some.inj hs
      · rename_i hrefused
        simp [Proc.JoinedTo, hrefused]
      · rename_i hrefused
        simp [Proc.JoinedTo, hrefused, hsends, hc']
    · rename_i hnone
      obtain rfl := Option.some.inj hs
      simp [Proc.JoinedTo, hnone]

end Invariant

/-- The creator is through when another process joins. -/
def joinReady : List Action := [.call 0 false, .call 1 false, .call 0 false, .call 1 false]

theorem joinedTo_joinReady : ∃ s s',
    runFrom (System.step talk) .init joinReady = some s ∧
      System.step talk s (.call 1 false) = some s' ∧
      ((s'.proc 1).JoinedTo talk 0 ↔ ((s.proc 0).pc = .ready ∧ false = false)) := by
  have hrun : (runFrom (System.step talk) .init (joinReady ++ [.call 1 false])).isSome = true := by
    decide
  obtain ⟨s', hs'⟩ := Option.isSome_iff_exists.1 hrun
  obtain ⟨s, hs, hstep⟩ := runFrom_concat.1 hs'
  have hs1 : ((runFrom (System.step talk) .init joinReady).map fun s => s.proc 1) =
      some ⟨.openSecond, ⟨none, some ⟨talk.q1Name, 0⟩, false⟩, some 0⟩ := by decide
  have hpc' : ((runFrom (System.step talk) .init (joinReady ++ [.call 1 false])).map fun s =>
      ((s.proc 0).pc, (s.proc 1).pc)) = some (.ready, .ready) := by decide
  simp only [hs, Option.map_some, Option.some.injEq] at hs1
  simp only [hs', Option.map_some, Option.some.injEq, Prod.mk.injEq] at hpc'
  exact ⟨s, s', hs, hstep, joinedTo_iff hs hstep (by rw [hs1]) (Or.inr (by rw [hs1]))
    (Or.inr hpc'.2) ⟨[], s', rfl, hpc'.1⟩⟩

/-- The joining process opens `_2` before the creator has made it. -/
def joinEarly : List Action := [.call 0 false, .call 1 false, .call 1 false]

/-- In `joinEarly`, the process has found the creator 0, which goes on to complete its
`init_chat_queues`, but the open of `_2` fails. -/
theorem not_joinedTo_joinEarly : ¬ ∀ as s s' j c,
    runFrom (System.step talk) .init as = some s →
      System.step talk s (.call j false) = some s' → (s.proc j).found = some c →
      (s.proc j).Joining → (s'.proc j).Returned → Completes talk s' c →
      (s'.proc j).JoinedTo talk c := by
  intro hlaw
  have hrun : (runFrom (System.step talk) .init
      (joinEarly ++ [.call 1 false] ++ [.call 0 false])).isSome = true := by decide
  obtain ⟨t, ht⟩ := Option.isSome_iff_exists.1 hrun
  obtain ⟨s', hs', hlast⟩ := runFrom_concat.1 ht
  obtain ⟨s, hs, hstep⟩ := runFrom_concat.1 hs'
  have hs1 : ((runFrom (System.step talk) .init joinEarly).map fun s => s.proc 1) =
      some ⟨.openSecond, ⟨none, some ⟨talk.q1Name, 0⟩, false⟩, some 0⟩ := by decide
  have hs1' : ((runFrom (System.step talk) .init (joinEarly ++ [.call 1 false])).map fun s =>
      (s.proc 1).pc) = some .failed := by decide
  have ht0 : ((runFrom (System.step talk) .init
      (joinEarly ++ [.call 1 false] ++ [.call 0 false])).map fun s => (s.proc 0).pc) =
      some .ready := by decide
  simp only [hs, Option.map_some, Option.some.injEq] at hs1
  simp only [hs', Option.map_some, Option.some.injEq] at hs1'
  simp only [ht, Option.map_some, Option.some.injEq] at ht0
  have hjoined := hlaw joinEarly s s' 1 0 hs hstep (by rw [hs1]) (Or.inr (by rw [hs1]))
    (Or.inl hs1') ⟨[.call 0 false], t, by rw [runFrom_singleton, hlast], ht0⟩
  have hready := hjoined.1
  rw [hs1'] at hready
  cases hready

end EltexPractice.P2pChat
