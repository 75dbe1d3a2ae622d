import EltexPractice.Copier.Copied

/-!
# The name of the copy

The path goes to the child in the 256 bytes of `header.filename`, and the child puts `.copy` behind
what it finds there. A longer path is cut without a word, and two of them can meet.

* `CanCopy.dest_eq`: where the copy is, for any path.
* `nameLaw_iff`: every copy is at its source path followed by `.copy`, and no two at one path,
  exactly when no path has more than 255 bytes.
-/

namespace EltexPractice.Copier.ShortCalls

open CString
open Transfer (pipeBuf)

/-- `copy_file` with the source `path`, which holds `content`, can return 0 and leave `stored` at
`dest`. -/
def CanCopy (path content : List UInt8) (dest : Option (List UInt8)) (stored : List UInt8) : Prop :=
  ∃ (C : Config) (as : List Action) (s : State), C.srcFilename = path ∧ C.source = content ∧
    runFrom (State.step C) (.init C) as = some s ∧ s.parent = .returned 0 ∧ s.dest = dest ∧
      s.stored = stored

/-- Whenever `copy_file` returns 0 for one of the paths, the copy is at the path followed by
`.copy`, and never at the one of another path. -/
structure NameLaw (paths : List (List UInt8)) : Prop where
  named : ∀ path ∈ paths, ∀ content dest stored, CanCopy path content dest stored →
    dest = some (path ++ ascii ".copy") ∧ stored = content
  apart : ∀ path ∈ paths, ∀ path' ∈ paths, path ≠ path' → ∀ content content' dest stored stored',
    CanCopy path content dest stored → ¬ CanCopy path' content' dest stored'

section

variable {path content stored : List UInt8} {dest : Option (List UInt8)}

/-- The copy is at the first 255 bytes of the path followed by `.copy`, and it is whole. -/
theorem CanCopy.dest_eq (h : CanCopy path content dest stored) (hzero : 0 ∉ path) :
    dest = some (path.take 255 ++ ascii ".copy") ∧ stored = content := by
  obtain ⟨C, as, s, rfl, rfl, hrun, hreturned, rfl, rfl⟩ := h
  have hcopied := (inv_of_run hrun).copied hreturned
  rw [hcopied.dest, hcopied.header, destFilename_header C hzero]
  exact ⟨rfl, hcopied.stored⟩

/-- A path that can be opened can be copied. -/
theorem canCopy (hzero : 0 ∉ path) (hopen : path.length < pathMax)
    (hcontent : content.length < 2 ^ 63) :
    CanCopy path content (some (path.take 255 ++ ascii ".copy")) content := by
  let C : Config := ⟨.pipe, path, content, hcontent, pipeBuf, le_rfl⟩
  have hless : ∀ s a s', State.step C s a = some s' → s'.remaining < s.remaining :=
    fun _ _ _ hs => remaining_lt_of_step hs
  obtain ⟨as, s, hok, hrun, hend⟩ := exists_end_of_decreasing (Q := Action.Ok) hless (.init C)
  have hinv := inv_of_run hrun
  have hreturned := (clean_of_run hopen hok hrun).returned_of_stuck hinv hend
  have hcopied := hinv.copied hreturned
  refine ⟨C, as, s, rfl, rfl, hrun, hreturned, ?_, hcopied.stored⟩
  rw [hcopied.dest, hcopied.header, destFilename_header C hzero]

end

/-- **Every copy has the name of its source** exactly when all paths fit the header. -/
theorem nameLaw_iff {paths : List (List UInt8)} (hzero : ∀ path ∈ paths, 0 ∉ path)
    (hopen : ∀ path ∈ paths, path.length < pathMax) :
    NameLaw paths ↔ ∀ path ∈ paths, path.length ≤ 255 := by
  constructor
  · intro h path hpath
    have hcopy := @canCopy path [] (hzero path hpath) (hopen path hpath) (by decide)
    have hdest := (h.named path hpath _ _ _ hcopy).1
    have hname := List.append_cancel_right (Option.some.inj hdest)
    have hlen := congrArg List.length hname
    rw [List.length_take] at hlen
    omega
  · intro h
    have hdest {path content stored : List UInt8} {dest : Option (List UInt8)}
        (hpath : path ∈ paths) (hcopy : CanCopy path content dest stored) :
        dest = some (path ++ ascii ".copy") ∧ stored = content := by
      have hcut := hcopy.dest_eq (hzero path hpath)
      rwa [List.take_of_length_le (h path hpath)] at hcut
    refine ⟨fun path hpath content dest stored hcopy => hdest hpath hcopy, ?_⟩
    intro path hpath path' hpath' hne content content' dest stored stored' hcopy hcopy'
    have heq := (hdest hpath hcopy).1.symm.trans (hdest hpath' hcopy').1
    exact hne (List.append_cancel_right (Option.some.inj heq))

theorem nameLaw_two : NameLaw [ascii "a", ascii "b"] :=
  (nameLaw_iff (by decide) (by decide)).2 (by decide)

/-- A file behind 127 times `./`. -/
def deepPath (name : List UInt8) : List UInt8 := (List.replicate 127 (ascii "./")).flatten ++ name

set_option maxRecDepth 4000 in
/-- The last byte of a path of 256 bytes is lost, and with it the difference of two paths. -/
theorem not_nameLaw :
    CanCopy (deepPath (ascii "ab")) [1] (some (deepPath (ascii "a.copy"))) [1] ∧
      CanCopy (deepPath (ascii "ac")) [2] (some (deepPath (ascii "a.copy"))) [2] ∧
      ¬ NameLaw [deepPath (ascii "ab"), deepPath (ascii "ac")] := by
  have h₁ : CanCopy (deepPath (ascii "ab")) [1] (some (deepPath (ascii "a.copy"))) [1] :=
    canCopy (by decide) (by decide) (by decide)
  have h₂ : CanCopy (deepPath (ascii "ac")) [2] (some (deepPath (ascii "a.copy"))) [2] :=
    canCopy (by decide) (by decide) (by decide)
  refine ⟨h₁, h₂, fun h => ?_⟩
  exact h.apart _ List.mem_cons_self _ (List.mem_cons_of_mem _ List.mem_cons_self) (by decide)
    _ _ _ _ _ h₁ h₂

end EltexPractice.Copier.ShortCalls
