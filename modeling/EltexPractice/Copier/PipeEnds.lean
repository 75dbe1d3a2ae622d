import EltexPractice.Copier.CopyFile

/-!
# The ends of the pipes

`copy_file` stores two of the four ends and computes the others by adding and subtracting `1`. The
numbers come out right when both pipes get two numbers in a row. When `fork` fails two ends stay
open, so the next file's pipes get other numbers. Every call of a run is right exactly when neither
happens (`copyFiles_right_iff`).
-/

namespace EltexPractice.Copier

/-! ## Lowest free numbers -/

namespace Fds

theorem obj_lowest (t : Fds) : t.obj t.lowest = none := Nat.find_spec t.exists_free

theorem lowest_le {t : Fds} {n : ℕ} (h : t.obj n = none) : t.lowest ≤ n := Nat.find_min' _ h

theorem obj_of_lt_lowest {t : Fds} {n : ℕ} (h : n < t.lowest) : t.obj n ≠ none := fun hn =>
  absurd (lowest_le hn) (Nat.not_le.2 h)

@[simp] theorem obj_set_self (t : Fds) (fd : ℕ) (o : Obj) : (t.set fd o).obj fd = some o :=
  Function.update_self ..

theorem obj_set_of_ne (t : Fds) {fd n : ℕ} (h : n ≠ fd) (o : Obj) : (t.set fd o).obj n = t.obj n :=
  Function.update_of_ne h ..

@[simp] theorem obj_close_self (t : Fds) (fd : ℕ) : (t.close fd).obj fd = none :=
  Function.update_self ..

theorem obj_close_of_ne (t : Fds) {fd n : ℕ} (h : n ≠ fd) : (t.close fd).obj n = t.obj n :=
  Function.update_of_ne h ..

/-- A descriptor is opened and closed again. -/
theorem close_set {t : Fds} {fd : ℕ} (h : t.obj fd = none) (o : Obj) :
    (t.set fd o).close fd = t := by
  ext1
  funext n
  rcases eq_or_ne n fd with rfl | hne
  · rw [obj_close_self, h]
  · rw [obj_close_of_ne _ hne, obj_set_of_ne _ hne]

theorem close_comm (t : Fds) (fd fd' : ℕ) : (t.close fd).close fd' = (t.close fd').close fd := by
  ext1
  funext n
  rcases eq_or_ne n fd with rfl | hne
  · rcases eq_or_ne n fd' with rfl | hne'
    · rfl
    · rw [obj_close_self, obj_close_of_ne _ hne', obj_close_self]
  · rcases eq_or_ne n fd' with rfl | hne'
    · rw [obj_close_self, obj_close_of_ne _ hne, obj_close_self]
    · rw [obj_close_of_ne _ hne', obj_close_of_ne _ hne, obj_close_of_ne _ hne,
        obj_close_of_ne _ hne']

/-- The next lowest free number is a higher one. -/
theorem lowest_lt_lowest_set (t : Fds) (o : Obj) : t.lowest < (t.set t.lowest o).lowest := by
  have hfree := (t.set t.lowest o).obj_lowest
  have hne : (t.set t.lowest o).lowest ≠ t.lowest := fun heq => by
    rw [heq, obj_set_self] at hfree
    cases hfree
  rw [obj_set_of_ne _ hne] at hfree
  exact lt_of_le_of_ne (lowest_le hfree) hne.symm

end Fds

/-! ## The four ends -/

/-- The numbers of the four ends of a call, and what is known of them. -/
structure Ends (t : Fds) (call a b c d : ℕ) (t' : Fds) : Prop where
  lt_ab : a < b
  lt_bc : b < c
  lt_cd : c < d
  free_a : t.obj a = none
  free_b : t.obj b = none
  free_c : t.obj c = none
  free_d : t.obj d = none
  taken : ∀ n < d, n ≠ a → n ≠ b → n ≠ c → t.obj n ≠ none
  eq : t' = (((t.set a (.pipe call .dataRead)).set b (.pipe call .dataWrite)).set c
    (.pipe call .syncRead)).set d (.pipe call .syncWrite)

/-- Both calls of `pipe`. -/
theorem exists_ends (t : Fds) (call : ℕ) : ∃ a b c d t₁ t₂,
    t.pipe call .dataRead .dataWrite = (a, b, t₁) ∧
    t₁ = (t.set a (.pipe call .dataRead)).set b (.pipe call .dataWrite) ∧
    t₁.pipe call .syncRead .syncWrite = (c, d, t₂) ∧ Ends t call a b c d t₂ := by
  set a := t.lowest with ha
  set ta := t.set a (.pipe call .dataRead) with hta
  set b := ta.lowest with hb
  set tb := ta.set b (.pipe call .dataWrite) with htb
  set c := tb.lowest with hc
  set tc := tb.set c (.pipe call .syncRead) with htc
  set d := tc.lowest with hd
  have hab : a < b := t.lowest_lt_lowest_set _
  have hbc : b < c := ta.lowest_lt_lowest_set _
  have hcd : c < d := tb.lowest_lt_lowest_set _
  have hobj : ∀ n, n ≠ a → n ≠ b → n ≠ c → tc.obj n = t.obj n := fun n h₁ h₂ h₃ => by
    rw [htc, Fds.obj_set_of_ne _ h₃, htb, Fds.obj_set_of_ne _ h₂, hta, Fds.obj_set_of_ne _ h₁]
  refine ⟨a, b, c, d, tb, tc.set d (.pipe call .syncWrite), rfl, rfl, rfl, hab, hbc, hcd,
    t.obj_lowest, ?_, ?_, ?_, fun n hn h₁ h₂ h₃ => ?_, rfl⟩
  · have hfree := ta.obj_lowest
    rwa [← hb, hta, Fds.obj_set_of_ne _ hab.ne'] at hfree
  · have hfree := tb.obj_lowest
    rwa [← hc, htb, Fds.obj_set_of_ne _ hbc.ne', hta, Fds.obj_set_of_ne _ (hab.trans hbc).ne']
      at hfree
  · have hfree := tc.obj_lowest
    rwa [← hd, hobj d ((hab.trans hbc).trans hcd).ne' (hbc.trans hcd).ne' hcd.ne'] at hfree
  · have htaken := Fds.obj_of_lt_lowest hn
    rwa [hobj n h₁ h₂ h₃] at htaken

namespace Ends

variable {t t' : Fds} {call a b c d : ℕ}

theorem obj_a (h : Ends t call a b c d t') : t'.obj a = some (.pipe call .dataRead) := by
  have h₁ := h.lt_ab
  have h₂ := h.lt_bc
  have h₃ := h.lt_cd
  rw [h.eq, Fds.obj_set_of_ne _ (by omega), Fds.obj_set_of_ne _ (by omega),
    Fds.obj_set_of_ne _ (by omega), Fds.obj_set_self]

theorem obj_b (h : Ends t call a b c d t') : t'.obj b = some (.pipe call .dataWrite) := by
  have h₂ := h.lt_bc
  have h₃ := h.lt_cd
  rw [h.eq, Fds.obj_set_of_ne _ (by omega), Fds.obj_set_of_ne _ (by omega), Fds.obj_set_self]

theorem obj_c (h : Ends t call a b c d t') : t'.obj c = some (.pipe call .syncRead) := by
  have h₃ := h.lt_cd
  rw [h.eq, Fds.obj_set_of_ne _ (by omega), Fds.obj_set_self]

theorem obj_d (h : Ends t call a b c d t') : t'.obj d = some (.pipe call .syncWrite) := by
  rw [h.eq, Fds.obj_set_self]

theorem obj_other (h : Ends t call a b c d t') {n : ℕ} (ha : n ≠ a) (hb : n ≠ b) (hc : n ≠ c)
    (hd : n ≠ d) : t'.obj n = t.obj n := by
  rw [h.eq, Fds.obj_set_of_ne _ hd, Fds.obj_set_of_ne _ hc, Fds.obj_set_of_ne _ hb,
    Fds.obj_set_of_ne _ ha]

/-- Without the four ends the table is the one before. -/
theorem close_all (h : Ends t call a b c d t') :
    (((t'.close a).close d).close b).close c = t := by
  ext1
  funext n
  rcases eq_or_ne n c with rfl | hc
  · rw [Fds.obj_close_self, h.free_c]
  · rw [Fds.obj_close_of_ne _ hc]
    rcases eq_or_ne n b with rfl | hb
    · rw [Fds.obj_close_self, h.free_b]
    · rw [Fds.obj_close_of_ne _ hb]
      rcases eq_or_ne n d with rfl | hd
      · rw [Fds.obj_close_self, h.free_d]
      · rw [Fds.obj_close_of_ne _ hd]
        rcases eq_or_ne n a with rfl | ha
        · rw [Fds.obj_close_self, h.free_a]
        · rw [Fds.obj_close_of_ne _ ha, h.obj_other ha hb hc hd]

end Ends

/-- The four lowest free numbers are two pairs of neighbours. -/
def Adjacent (t : Fds) : Prop :=
  ∃ a c, a + 1 < c ∧ t.obj a = none ∧ t.obj (a + 1) = none ∧ t.obj c = none ∧
    t.obj (c + 1) = none ∧ ∀ n < c, n ≠ a → n ≠ a + 1 → t.obj n ≠ none

theorem Ends.adjacent_iff {t t' : Fds} {call a b c d : ℕ} (h : Ends t call a b c d t') :
    Adjacent t ↔ b = a + 1 ∧ d = c + 1 := by
  have h₁ := h.lt_ab
  have h₂ := h.lt_bc
  have h₃ := h.lt_cd
  constructor
  · rintro ⟨a', c', hlt, ha', hb', hc', hd', htaken⟩
    -- a free number that is not one of the pairs is behind them
    have hfree : ∀ n, t.obj n = none → n = a' ∨ n = a' + 1 ∨ c' ≤ n := fun n hn => by
      by_contra hcon
      simp only [not_or, Nat.not_le] at hcon
      exact htaken n hcon.2.2 hcon.1 hcon.2.1 hn
    have hends : ∀ n, t.obj n = none → n = a ∨ n = b ∨ n = c ∨ d ≤ n := fun n hn => by
      by_contra hcon
      simp only [not_or, Nat.not_le] at hcon
      exact h.taken n hcon.2.2.2 hcon.1 hcon.2.1 hcon.2.2.1 hn
    have ha := hfree a h.free_a
    have hb := hfree b h.free_b
    have hc := hfree c h.free_c
    have hd := hfree d h.free_d
    have ea := hends a' ha'
    have eb := hends (a' + 1) hb'
    have ec := hends c' hc'
    have ed := hends (c' + 1) hd'
    omega
  · rintro ⟨rfl, rfl⟩
    exact ⟨a, c, h₂, h.free_a, h.free_b, h.free_c, h.free_d,
      fun n hn ha hb => h.taken n (by omega) ha hb (by omega)⟩

/-! ## Processes that use the right ends -/

namespace Proc

/-- All that is logged is right. -/
def Good (p : Proc) : Prop := ∀ x ∈ p.log, x.Right

variable {p : Proc} {role : End} {fd : ℕ}

theorem Good.use (h : p.Good) (hfd : p.fds.obj fd = some (.pipe p.call role)) :
    (p.use role fd).Good := by
  intro x hx
  rcases List.mem_append.1 hx with hx | hx
  · exact h x hx
  · rw [List.mem_singleton.1 hx]
    exact hfd

theorem Good.useLoop (h : p.Good) (hfd : p.fds.obj fd = some (.pipe p.call role)) (k : ℕ) :
    (p.useLoop role fd k).Good := by
  induction k generalizing p with
  | zero => exact h
  | succ k ih => exact ih (h.use hfd) hfd

theorem Good.close (h : p.Good) (hfd : p.fds.obj fd = some (.pipe p.call role)) :
    (p.close role fd).Good := h.use hfd

@[simp] theorem fds_useLoop (p : Proc) (role : End) (fd k : ℕ) :
    (p.useLoop role fd k).fds = p.fds := by
  induction k generalizing p with
  | zero => rfl
  | succ k ih => exact ih _

@[simp] theorem call_useLoop (p : Proc) (role : End) (fd k : ℕ) :
    (p.useLoop role fd k).call = p.call := by
  induction k generalizing p with
  | zero => rfl
  | succ k ih => exact ih _

/-- Whatever a process does, its log grows. -/
theorem subset_use {x : Access} (h : x ∈ p.log) (role : End) (fd : ℕ) :
    x ∈ (p.use role fd).log := List.mem_append_left _ h

theorem subset_close {x : Access} (h : x ∈ p.log) (role : End) (fd : ℕ) :
    x ∈ (p.close role fd).log := List.mem_append_left _ h

theorem subset_useLoop {x : Access} (h : x ∈ p.log) (role : End) (fd k : ℕ) :
    x ∈ (p.useLoop role fd k).log := by
  induction k generalizing p with
  | zero => exact h
  | succ k ih => exact ih (subset_use h role fd)

end Proc

open Proc

variable {p : Proc} {o : Outcome}

theorem runChildProcess_good (h : p.Good) {r w : ℕ}
    (hr : p.fds.obj r = some (.pipe p.call .dataRead))
    (hw : p.fds.obj w = some (.pipe p.call .syncWrite)) : (runChildProcess o r w p).Good := by
  have hne : r ≠ w := fun heq => by
    rw [heq, hw] at hr
    cases hr
  have hr' : ((p.use .syncWrite w).close .syncWrite w).fds.obj r =
      some (.pipe p.call .dataRead) := (Fds.obj_close_of_ne _ hne).trans hr
  have hsignal := h.use hw
  have hread := (hsignal.close hw).use hr'
  unfold runChildProcess
  split
  · refine (hsignal.close hr).close ?_
    exact (Fds.obj_close_of_ne _ hne.symm).trans hw
  · dsimp only
    split
    · exact hread.close hr'
    · split
      · exact hread.close hr'
      · split
        · exact hread.close hr'
        · set q := ((p.use .syncWrite w).close .syncWrite w).use .dataRead r with hq
          -- the destination file does not get the number of an open end
          have hfile : r ≠ q.fds.lowest := fun heq => by
            have hfree := q.fds.obj_lowest
            rw [← heq, show q.fds.obj r = _ from hr'] at hfree
            cases hfree
          have hopen : (q.openFile.2).fds.obj r = some (.pipe q.openFile.2.call .dataRead) :=
            (Fds.obj_set_of_ne _ hfile _).trans hr'
          have hloop : ((q.openFile.2).useLoop .dataRead r o.reads).Good :=
            Good.useLoop (p := q.openFile.2) hread hopen o.reads
          refine Good.close (p := ((q.openFile.2).useLoop .dataRead r o.reads).closeFile
            q.openFile.1) hloop ?_
          change (((q.openFile.2).useLoop .dataRead r o.reads).fds.close q.fds.lowest).obj r = _
          rw [fds_useLoop, Fds.obj_close_of_ne _ hfile, hopen]
          simp only [closeFile, call_useLoop]

/-- The parent gives up before it has closed an end. -/
theorem giveUp_good {q : Proc} {t : Fds} {fdIn w s : ℕ} (h : q.Good)
    (hback : q.fds.close fdIn = t) (hw : t.obj w = some (.pipe q.call .dataWrite))
    (hs : t.obj s = some (.pipe q.call .syncRead)) :
    (((q.closeFile fdIn).close .dataWrite w).close .syncRead s).Good ∧
      (((q.closeFile fdIn).close .dataWrite w).close .syncRead s).fds = (t.close w).close s := by
  subst hback
  have hne : s ≠ w := fun heq => by
    rw [heq, hw] at hs
    cases hs
  have hclose : ((q.closeFile fdIn).close .dataWrite w).Good :=
    Good.close (p := q.closeFile fdIn) h hw
  exact ⟨hclose.close ((Fds.obj_close_of_ne _ hne).trans hs), rfl⟩

theorem runParentProcess_good (h : p.Good) {w s : ℕ}
    (hw : p.fds.obj w = some (.pipe p.call .dataWrite))
    (hs : p.fds.obj s = some (.pipe p.call .syncRead)) :
    (runParentProcess o w s p).2.Good ∧
      (runParentProcess o w s p).2.fds = (p.fds.close w).close s := by
  have hne : w ≠ s := fun heq => by
    rw [heq, hs] at hw
    cases hw
  unfold runParentProcess
  split
  · refine ⟨(h.close hw).close ?_, rfl⟩
    exact (Fds.obj_close_of_ne _ hne.symm).trans hs
  · -- the source file does not get the number of an open end
    have hfile : ∀ {n x}, p.fds.obj n = some x → n ≠ p.fds.lowest := fun hn heq => by
      have hfree := p.fds.obj_lowest
      rw [← heq, hn] at hfree
      cases hfree
    obtain ⟨q, hq⟩ : ∃ q, q = p.openFile.2 := ⟨_, rfl⟩
    have hopen : p.openFile = (p.fds.lowest, q) := by rw [hq]; rfl
    have hset : q.fds = p.fds.set p.fds.lowest .file := by rw [hq]; rfl
    have hcall : q.call = p.call := by rw [hq]; rfl
    have hgood : q.Good := by
      rw [hq]
      exact h
    have hback : q.fds.close p.fds.lowest = p.fds := by
      rw [hset, Fds.close_set p.fds.obj_lowest]
    rw [← hcall] at hw hs
    have hwq : q.fds.obj w = some (.pipe q.call .dataWrite) := by
      rw [hset, Fds.obj_set_of_ne _ (hfile hw), hw]
    have hsq : q.fds.obj s = some (.pipe q.call .syncRead) := by
      rw [hset, Fds.obj_set_of_ne _ (hfile hs), hs]
    rw [hopen]
    dsimp only
    split
    · exact giveUp_good hgood hback hw hs
    · have hread := hgood.use hsq
      split
      · exact giveUp_good (q := q.use .syncRead s) hread hback hw hs
      · set q₁ := ((q.use .syncRead s).close .syncRead s).use .dataWrite w with hq₁
        have hwq₁ : q₁.fds.obj w = some (.pipe q.call .dataWrite) :=
          (Fds.obj_close_of_ne _ hne).trans hwq
        have hgood₁ : q₁.Good := (hread.close hsq).use hwq₁
        have hwc : (q₁.fds.close p.fds.lowest).obj w = some (.pipe q.call .dataWrite) :=
          (Fds.obj_close_of_ne _ (hfile hw)).trans hwq₁
        have hfds : (q₁.fds.close p.fds.lowest).close w = (p.fds.close w).close s := by
          have hback₁ : q₁.fds.close p.fds.lowest = p.fds.close s := by
            change (q.fds.close s).close p.fds.lowest = p.fds.close s
            rw [Fds.close_comm, hback]
          rw [hback₁, Fds.close_comm]
        split
        · exact ⟨Good.close (p := q₁.closeFile p.fds.lowest) hgood₁ hwc, hfds⟩
        · have hloop : (q₁.useLoop .dataWrite w o.writes).Good := hgood₁.useLoop hwq₁ _
          refine ⟨Good.close (p := (q₁.useLoop .dataWrite w o.writes).closeFile p.fds.lowest)
            hloop ?_, ?_⟩
          · change ((q₁.useLoop .dataWrite w o.writes).fds.close p.fds.lowest).obj w = _
            rw [fds_useLoop, hwc]
            simp only [closeFile, call_useLoop]
            rfl
          · change ((q₁.useLoop .dataWrite w o.writes).fds.close p.fds.lowest).close w = _
            rw [fds_useLoop, hfds]

theorem subset_runChildProcess {x : Access} (h : x ∈ p.log) (r w : ℕ) :
    x ∈ (runChildProcess o r w p).log := by
  have hsignal := subset_use h .syncWrite w
  have hread := subset_use (subset_close hsignal .syncWrite w) .dataRead r
  unfold runChildProcess
  split
  · exact subset_close (subset_close hsignal _ _) _ _
  · dsimp only
    split
    · exact subset_close hread _ _
    · split
      · exact subset_close hread _ _
      · split
        · exact subset_close hread _ _
        · set q := (((p.use .syncWrite w).close .syncWrite w).use .dataRead r).openFile.2
          have hloop : x ∈ (q.useLoop .dataRead r o.reads).log :=
            subset_useLoop (p := q) hread _ _ _
          exact subset_close (p := (q.useLoop .dataRead r o.reads).closeFile _) hloop _ _

/-! ## One file -/

/-- Only the right ends are used and closed, and the parent has the descriptors it had. -/
def Result.Right (entry : Fds) (r : Result) : Prop := (∀ x ∈ r.log, x.Right) ∧ r.fds = entry

/-- No pipe is open. -/
def NoPipe (t : Fds) : Prop := ∀ n call e, t.obj n ≠ some (.pipe call e)

namespace Ends

variable {t t' : Fds} {call a b c d : ℕ}

/-- The first two descriptors the child closes show whether the numbers are neighbours. -/
theorem adjacent_of_good (h : Ends t call a b c d t') (ht : NoPipe t)
    (hgood : (runChildProcess o a d
      (((⟨call, t', []⟩ : Proc).close .dataWrite (a + 1)).close .syncRead (d - 1))).Good) :
    b = a + 1 ∧ d = c + 1 := by
  have hab := h.lt_ab
  have hbc := h.lt_bc
  have hcd := h.lt_cd
  have hfirst : (⟨call, .dataWrite, t'.obj (a + 1)⟩ : Access).Right := by
    refine hgood _ (subset_runChildProcess ?_ _ _)
    exact subset_close (List.mem_singleton.2 rfl) _ _
  have hb : b = a + 1 := by
    by_contra hne
    have hother := h.obj_other (n := a + 1) (by omega) (by omega) (by omega) (by omega)
    exact ht _ _ _ (hother.symm.trans hfirst)
  have hsecond : (⟨call, .syncRead, (t'.close (a + 1)).obj (d - 1)⟩ : Access).Right := by
    refine hgood _ (subset_runChildProcess ?_ _ _)
    exact List.mem_append_right _ (List.mem_singleton.2 rfl)
  refine ⟨hb, ?_⟩
  by_contra hne
  have hother := h.obj_other (n := d - 1) (by omega) (by omega) (by omega) (by omega)
  have hclosed : (t'.close (a + 1)).obj (d - 1) = t'.obj (d - 1) :=
    Fds.obj_close_of_ne _ (by omega)
  exact ht _ _ _ (hother.symm.trans (hclosed.symm.trans hsecond))

/-- With neighbours the child uses and closes the right ends. -/
theorem child_good (h : Ends t call a (a + 1) c (c + 1) t') (o : Outcome) :
    (runChildProcess o a (c + 1)
      (((⟨call, t', []⟩ : Proc).close .dataWrite (a + 1)).close .syncRead c)).Good := by
  have hab := h.lt_ab
  have hbc := h.lt_bc
  have hcd := h.lt_cd
  have hempty : (⟨call, t', []⟩ : Proc).Good := nofun
  refine runChildProcess_good ((hempty.close h.obj_b).close ?_) ?_ ?_
  · exact (Fds.obj_close_of_ne _ hbc.ne').trans h.obj_c
  · exact (Fds.obj_close_of_ne _ (hab.trans hbc).ne).trans
      ((Fds.obj_close_of_ne _ hab.ne).trans h.obj_a)
  · exact (Fds.obj_close_of_ne _ hcd.ne').trans
      ((Fds.obj_close_of_ne _ (hbc.trans hcd).ne').trans h.obj_d)

/-- So does the parent, which has the descriptors it had before. -/
theorem parent_good (h : Ends t call a (a + 1) c (c + 1) t') (o : Outcome) :
    (runParentProcess o (a + 1) c
        (((⟨call, t', []⟩ : Proc).close .dataRead a).close .syncWrite (c + 1))).2.Good ∧
      (runParentProcess o (a + 1) c
        (((⟨call, t', []⟩ : Proc).close .dataRead a).close .syncWrite (c + 1))).2.fds = t := by
  have hab := h.lt_ab
  have hbc := h.lt_bc
  have hcd := h.lt_cd
  have hempty : (⟨call, t', []⟩ : Proc).Good := nofun
  obtain ⟨hgood, hfds⟩ := runParentProcess_good (o := o) (w := a + 1) (s := c)
    (p := ((⟨call, t', []⟩ : Proc).close .dataRead a).close .syncWrite (c + 1))
    ((hempty.close h.obj_a).close
      ((Fds.obj_close_of_ne _ ((hab.trans hbc).trans hcd).ne').trans h.obj_d))
    ((Fds.obj_close_of_ne _ (hbc.trans hcd).ne).trans
      ((Fds.obj_close_of_ne _ hab.ne').trans h.obj_b))
    ((Fds.obj_close_of_ne _ hcd.ne).trans
      ((Fds.obj_close_of_ne _ (hab.trans hbc).ne').trans h.obj_c))
  exact ⟨hgood, hfds.trans h.close_all⟩

end Ends

/-- **One file**: every end is the right one, and none stays open, exactly when `fork` succeeds and
the pipes get neighbours, if the call comes that far. -/
theorem copyFile_right_iff {t : Fds} (ht : NoPipe t) (call : ℕ) (o : Outcome) :
    (copyFile call t o).Right t ↔
      (o.dataPipe = true → o.syncPipe = true → o.fork = true ∧ Adjacent t) := by
  obtain ⟨a, b, c, d, t₁, t₂, hdata, ht₁, hsync, h⟩ := exists_ends t call
  have hab := h.lt_ab
  have hbc := h.lt_bc
  have hcd := h.lt_cd
  rw [h.adjacent_iff, copyFile]
  cases o.dataPipe with
  | false => exact iff_of_true ⟨nofun, rfl⟩ nofun
  | true =>
    rw [hdata]
    cases o.syncPipe with
    | false =>
      refine iff_of_true ?_ nofun
      have hempty : (⟨call, t₁, []⟩ : Proc).Good := nofun
      have ha : t₁.obj a = some (.pipe call .dataRead) := by
        rw [ht₁, Fds.obj_set_of_ne _ hab.ne, Fds.obj_set_self]
      have hb : t₁.obj b = some (.pipe call .dataWrite) := by rw [ht₁, Fds.obj_set_self]
      refine ⟨(hempty.close ha).close ((Fds.obj_close_of_ne _ hab.ne').trans hb), ?_⟩
      change (t₁.close a).close b = t
      rw [Fds.close_comm, ht₁, Fds.close_set, Fds.close_set h.free_a]
      rw [Fds.obj_set_of_ne _ hab.ne', h.free_b]
    | true =>
      simp only [Bool.not_true, Bool.false_eq_true, if_false, hsync]
      have hempty : (⟨call, t₂, []⟩ : Proc).Good := nofun
      cases o.fork with
      | false =>
        refine iff_of_false (fun hright => ?_) fun hcond => ?_
        · -- `pipe_data[1]` is still open
          have hleak : ((t₂.close a).close d).obj b = t.obj b := congrArg (Fds.obj · b) hright.2
          rw [Fds.obj_close_of_ne _ (hbc.trans hcd).ne, Fds.obj_close_of_ne _ hab.ne', h.obj_b,
            h.free_b] at hleak
          cases hleak
        · exact Bool.false_ne_true (hcond trivial trivial).1
      | true =>
        simp only [Bool.not_true, Bool.false_eq_true, if_false, true_and, forall_const]
        constructor
        · intro hright
          exact h.adjacent_of_good ht fun x hx => hright.1 x (List.mem_append_left _ hx)
        · rintro ⟨rfl, rfl⟩
          obtain ⟨hparent, hfds⟩ := h.parent_good o
          refine ⟨fun x hx => ?_, hfds⟩
          rcases List.mem_append.1 hx with hx | hx
          · exact h.child_good o x hx
          · exact hparent x hx

/-! ## All files -/

theorem copyFiles_right_iff {t : Fds} (ht : NoPipe t) (call : ℕ) (os : List Outcome) :
    (∀ x ∈ copyFiles call t os, x.2.Right x.1) ↔
      ∀ o ∈ os, o.dataPipe = true → o.syncPipe = true → o.fork = true ∧ Adjacent t := by
  induction os generalizing call with
  | nil => simp [copyFiles]
  | cons o os ih =>
    rw [copyFiles, List.forall_mem_cons, List.forall_mem_cons, ← copyFile_right_iff ht call]
    refine and_congr_right fun hright => ?_
    rw [hright.2]
    exact ih (call + 1)

theorem noPipe_ofOpen (s : Finset ℕ) : NoPipe (.ofOpen s) := by
  intro n call e h
  rw [Fds.ofOpen] at h
  dsimp only at h
  split at h
  · cases h
  · cases h

/-- **The descriptors of the copier.** In a run over any files every end that is used or closed is
the right one, and every call leaves the parent with the descriptors it had, exactly when `fork`
succeeds in each call with two pipes and, if there is such a call, the four lowest free numbers at
the start are two pairs of neighbours. -/
theorem pipe_ends (s : Finset ℕ) (os : List Outcome) :
    (∀ x ∈ copyFiles 0 (.ofOpen s) os, x.2.Right x.1) ↔
      (∀ o ∈ os, o.dataPipe = true → o.syncPipe = true → o.fork = true) ∧
        ((∃ o ∈ os, o.dataPipe = true ∧ o.syncPipe = true) → Adjacent (.ofOpen s)) := by
  rw [copyFiles_right_iff (noPipe_ofOpen s)]
  constructor
  · refine fun h => ⟨fun o ho hd hs => (h o ho hd hs).1, ?_⟩
    rintro ⟨o, ho, hd, hs⟩
    exact (h o ho hd hs).2
  · rintro ⟨hfork, hadj⟩ o ho hd hs
    exact ⟨hfork o ho hd hs, hadj ⟨o, ho, hd, hs⟩⟩

/-- One file, and no call fails but `fork`, if `forked` is false. -/
def oneFile (forked : Bool) : Outcome :=
  ⟨true, true, forked, true, true, true, true, 1, true, true, true, true, true, 1⟩

/-- With descriptor `4` open the copier takes it for an end of the data pipe; and when `fork` fails
it leaves two ends open. -/
theorem not_right_oneFile :
    (¬ ∀ x ∈ copyFiles 0 (.ofOpen {0, 1, 2, 4}) [oneFile true], x.2.Right x.1) ∧
      ¬ ∀ x ∈ copyFiles 0 (.ofOpen {0, 1, 2}) [oneFile false], x.2.Right x.1 := by
  have hfree : ∀ {s : Finset ℕ} {n}, (Fds.ofOpen s).obj n = none ↔ n ∉ s := fun {s n} => by
    simp [Fds.ofOpen]
  refine ⟨fun h => ?_, fun h => ?_⟩
  · obtain ⟨a, c, hlt, ha, ha', -, -, htaken⟩ :=
      ((copyFiles_right_iff (noPipe_ofOpen _) 0 _).1 h _ List.mem_cons_self rfl rfl).2
    have h₃ := htaken 3
    simp only [ne_eq, hfree, Finset.mem_insert, Finset.mem_singleton] at ha ha' h₃
    omega
  · have hfork := ((copyFiles_right_iff (noPipe_ofOpen _) 0 _).1 h _ List.mem_cons_self rfl rfl).1
    exact Bool.false_ne_true hfork

end EltexPractice.Copier
