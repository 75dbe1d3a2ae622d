import Mathlib.Algebra.Order.Group.Nat
import Mathlib.Algebra.Ring.Int.Defs
import Mathlib.Order.Nat

/-!
# One-shot timers

A timer of the kernel on a clock that counts nanoseconds: it is armed for a number of seconds and
reports the time that is left, in seconds and nanoseconds. The time left is `0` once the timer has
expired, and while it is not armed.

* `Timer.remaining`, `Timer.gettime`, `Timer.settime`: the time left, and the two calls.
* `ceilSeconds`: a duration rounded up to whole seconds, which is what the two fields of a reported
  time add up to (`Timer.sec_add_ceil`).
-/

namespace EltexPractice

/-- The nanoseconds of a second. -/
abbrev nsPerSec : ℕ := 1000000000

/-- `struct timespec`. -/
structure TimeSpec where
  sec : ℕ
  nsec : ℕ
  deriving DecidableEq

/-- A one-shot timer: the moment at which it expires, `none` while it is not armed. -/
structure Timer where
  expiry : Option ℕ
  deriving DecidableEq

/-- A duration rounded up to whole seconds. -/
def ceilSeconds (ns : ℕ) : ℕ := (ns + (nsPerSec - 1)) / nsPerSec

theorem ceilSeconds_pos {ns : ℕ} (h : 0 < ns) : 1 ≤ ceilSeconds ns := by
  unfold ceilSeconds nsPerSec
  omega

theorem ceilSeconds_le {ns sec : ℕ} (h : ns ≤ sec * nsPerSec) : ceilSeconds ns ≤ sec := by
  unfold ceilSeconds nsPerSec at *
  omega

namespace Timer

/-- A timer that was never armed. -/
def disarmed : Timer := ⟨none⟩

/-- The nanoseconds up to the expiry. -/
def remaining (t : Timer) (now : ℕ) : ℕ :=
  match t.expiry with
  | none => 0
  | some e => e - now

/-- `timerfd_gettime`. -/
def gettime (t : Timer) (now : ℕ) : TimeSpec :=
  ⟨t.remaining now / nsPerSec, t.remaining now % nsPerSec⟩

/-- `timerfd_settime` for `sec` seconds from now: a negative value is rejected, and `0` disarms the
timer. -/
def settime (t : Timer) (now : ℕ) (sec : ℤ) : Timer :=
  if sec < 0 then t
  else if sec = 0 then disarmed
  else ⟨some (now + sec.toNat * nsPerSec)⟩

@[simp] theorem remaining_disarmed (now : ℕ) : disarmed.remaining now = 0 := rfl

/-- The time left does not grow. -/
theorem remaining_le {t : Timer} {now now' : ℕ} (h : now ≤ now') :
    t.remaining now' ≤ t.remaining now := by
  obtain ⟨e⟩ := t
  cases e with
  | none => exact le_rfl
  | some e => exact Nat.sub_le_sub_left h e

/-- A timer that is set while it is not running runs for the time it was set to. -/
theorem remaining_settime {t : Timer} {now : ℕ} (h : t.remaining now = 0) (sec : ℤ) {now' : ℕ}
    (hnow : now ≤ now') :
    (t.settime now sec).remaining now' = now + sec.toNat * nsPerSec - now' := by
  unfold settime
  split
  · have hleft := remaining_le (t := t) hnow
    rw [Int.toNat_of_nonpos (by omega)]
    omega
  · split
    · rename_i hzero
      rw [remaining_disarmed, hzero]
      simp only [Int.toNat_zero]
      omega
    · rfl

/-- The timer runs while one of the reported fields is positive. -/
theorem running_iff (t : Timer) (now : ℕ) :
    (0 < (t.gettime now).sec ∨ 0 < (t.gettime now).nsec) ↔ 0 < t.remaining now := by
  simp only [gettime, nsPerSec]
  omega

/-- The reported seconds, one more for a fraction. -/
theorem sec_add_ceil (t : Timer) (now : ℕ) :
    (t.gettime now).sec + (if 0 < (t.gettime now).nsec then 1 else 0) =
      ceilSeconds (t.remaining now) := by
  have hnsec : (t.gettime now).nsec = t.remaining now % nsPerSec := rfl
  have hsec : (t.gettime now).sec = t.remaining now / nsPerSec := rfl
  rw [hnsec, hsec, ceilSeconds]
  unfold nsPerSec
  split <;> omega

end Timer

end EltexPractice
