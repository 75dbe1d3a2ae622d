import Mathlib.Logic.Function.Basic

/-!
# Objects with a name

What the kernel keeps of named objects (message queues, shared memory, semaphores): for every name
the object it stands for, if any. `create` makes an object under a name that is free, `unlink`
frees a name; an object that is open somewhere outlives its name, so a name can come to stand for
another object.
-/

namespace EltexPractice

/-- The object of each name. -/
abbrev Namespace (ν ω : Type*) := ν → Option ω

namespace Namespace

variable {ν ω : Type*} [DecidableEq ν] (ns : Namespace ν ω)

/-- The name stands for a new object. -/
def create (name : ν) (object : ω) : Namespace ν ω := Function.update ns name (some object)

/-- The name is free. -/
def unlink (name : ν) : Namespace ν ω := Function.update ns name none

@[simp] theorem create_self (name : ν) (object : ω) : ns.create name object name = some object :=
  Function.update_self ..

theorem create_of_ne {name other : ν} (h : other ≠ name) (object : ω) :
    ns.create name object other = ns other :=
  Function.update_of_ne h ..

@[simp] theorem unlink_self (name : ν) : ns.unlink name name = none := Function.update_self ..

theorem unlink_of_ne {name other : ν} (h : other ≠ name) : ns.unlink name other = ns other :=
  Function.update_of_ne h ..

variable {ns}

/-- What has a name after `create`. -/
theorem create_eq_some {name other : ν} {object o : ω}
    (h : ns.create name object other = some o) : other = name ∧ o = object ∨ ns other = some o := by
  by_cases hne : other = name
  · subst hne
    rw [create_self] at h
    exact Or.inl ⟨rfl, (Option.some.inj h).symm⟩
  · rw [create_of_ne ns hne] at h
    exact Or.inr h

/-- What has a name after `unlink` had it before. -/
theorem unlink_eq_some {name other : ν} {o : ω} (h : ns.unlink name other = some o) :
    ns other = some o := by
  by_cases hne : other = name
  · rw [hne, unlink_self] at h
    cases h
  · rwa [unlink_of_ne ns hne] at h

end Namespace

end EltexPractice
