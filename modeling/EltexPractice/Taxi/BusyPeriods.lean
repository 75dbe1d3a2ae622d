import EltexPractice.Taxi.Server
import Mathlib.Order.Interval.Set.Basic
import Mathlib.Data.Set.BooleanAlgebra
import Mathlib.Order.CompletePartialOrder

/-!
# Busy periods of a driver

A driver that acknowledges a task of `T` seconds at the moment `t` is busy in `[t, t + max(T, 0))`.
The driver keeps nothing but its timer; `Shift.Inv` says that from now on the timer shows the time
left of the one period that has not ended. So a task is acknowledged exactly outside the earlier
periods, and the periods never overlap (`busy_periods`).
-/

namespace EltexPractice.Taxi

/-! ## Messages over time -/

/-- A request that arrives some time after the one before it. -/
structure Arrival where
  delay : ℕ
  request : Request

/-- A request the driver has handled, and its answer. -/
structure Served where
  time : ℕ
  request : Request
  reply : Option IpcMsg

/-- A driver at the moment of its last request. -/
structure Shift where
  now : ℕ
  tfd : Timer
  served : List Served

namespace Shift

/-- A driver that has just started. -/
def start : Shift := ⟨0, .disarmed, []⟩

/-- The answer to the next request. -/
def reply (pid : ℤ) (st : Shift) (a : Arrival) : Option IpcMsg :=
  (driverRun pid st.tfd (st.now + a.delay) a.request.msg).2

/-- The next request is handled. -/
def next (pid : ℤ) (st : Shift) (a : Arrival) : Shift where
  now := st.now + a.delay
  tfd := (driverRun pid st.tfd (st.now + a.delay) a.request.msg).1
  served := st.served ++ [⟨st.now + a.delay, a.request, st.reply pid a⟩]

/-- The driver after a history of requests. -/
def after (pid : ℤ) (history : List Arrival) : Shift := history.foldl (next pid) start

end Shift

/-! ## Periods -/

/-- The period of an acknowledged task, from its arrival on. -/
structure Period where
  start : ℕ
  timer : Int32

/-- The end of a period; a negative timer counts as `0`. -/
def Period.stop (p : Period) : ℕ := p.start + p.timer.toInt.toNat * nsPerSec

/-- The moments of a period. -/
def Period.span (p : Period) : Set ℕ := Set.Ico p.start p.stop

/-- The period of a request that is an acknowledged task. -/
def Served.period? (s : Served) : Option Period :=
  match s.request, s.reply with
  | .task timer, some msg => if msg.type = .ack then some ⟨s.time, timer⟩ else none
  | _, _ => none

/-- The busy periods so far. -/
def Shift.periods (st : Shift) : List Period := st.served.filterMap (·.period?)

/-- A payload is the rest of a period, in whole seconds. -/
structure Period.Carries (p : Period) (t : ℕ) (payload : Int32) : Prop where
  rest : payload.toInt = ceilSeconds (p.stop - t)
  pos : 1 ≤ payload.toInt
  le : payload.toInt ≤ p.timer.toInt

theorem Period.rest_le {p : Period} {t : ℕ} (h : p.start ≤ t) :
    p.stop - t ≤ p.timer.toInt.toNat * nsPerSec := by
  unfold Period.stop
  omega

theorem Period.duration_le (p : Period) :
    p.timer.toInt.toNat * nsPerSec ≤ 2147483647 * nsPerSec := by
  have hint := p.timer.toInt_lt
  exact Nat.mul_le_mul_right _ (by omega)

theorem Period.carries {p : Period} {t : ℕ} (h : t ∈ p.span) :
    p.Carries t (Int32.ofNat (ceilSeconds (p.stop - t))) := by
  obtain ⟨hstart, hstop⟩ := h
  have hrest := Period.rest_le hstart
  have hpos := ceilSeconds_pos (show 0 < p.stop - t by omega)
  have hle := ceilSeconds_le hrest
  have hsec := toInt_ceilSeconds (hrest.trans p.duration_le)
  refine ⟨hsec, ?_, ?_⟩
  · rw [hsec]
    exact_mod_cast hpos
  · rw [hsec]
    omega

/-! ## The invariant -/

/-- What the timer shows from now on. -/
structure Shift.Inv (st : Shift) : Prop where
  started : ∀ p ∈ st.periods, p.start ≤ st.now
  ordered : st.periods.Pairwise fun p q => p.stop ≤ q.start
  inside : ∀ t, st.now ≤ t → ∀ p ∈ st.periods, t < p.stop → st.tfd.remaining t = p.stop - t
  outside : ∀ t, st.now ≤ t → (∀ p ∈ st.periods, p.stop ≤ t) → st.tfd.remaining t = 0

theorem Shift.inv_start : Shift.start.Inv := ⟨nofun, List.Pairwise.nil, nofun, fun _ _ _ => rfl⟩

namespace Shift.Inv

variable {st : Shift} {pid : ℤ}

/-- The timer runs exactly inside the periods. -/
theorem busy_iff (h : st.Inv) {t : ℕ} (ht : st.now ≤ t) :
    0 < st.tfd.remaining t ↔ ∃ p ∈ st.periods, t ∈ p.span := by
  constructor
  · intro hbusy
    by_contra hnone
    push Not at hnone
    refine hbusy.ne' (h.outside t ht fun p hp => ?_)
    by_contra hlt
    exact hnone p hp ⟨(h.started p hp).trans ht, Nat.not_le.1 hlt⟩
  · rintro ⟨p, hp, -, hlt⟩
    rw [h.inside t ht p hp hlt]
    omega

/-- The time left is less than the largest `int`, in seconds. -/
theorem remaining_le (h : st.Inv) {t : ℕ} (ht : st.now ≤ t) :
    st.tfd.remaining t ≤ 2147483647 * nsPerSec := by
  rcases Nat.eq_zero_or_pos (st.tfd.remaining t) with hzero | hpos
  · omega
  · obtain ⟨p, hp, hstart, hstop⟩ := (h.busy_iff ht).1 hpos
    rw [h.inside t ht p hp hstop]
    exact (Period.rest_le hstart).trans p.duration_le

theorem next_eq (pid : ℤ) (st : Shift) (a : Arrival) :
    st.next pid a = ⟨st.now + a.delay, a.request.serve st.tfd (st.now + a.delay),
      st.served ++ [⟨st.now + a.delay, a.request,
        some (a.request.reply pid st.tfd (st.now + a.delay))⟩]⟩ := by
  rw [Shift.next, Shift.reply, driverRun_request]

/-- A request that starts no period, and leaves the timer alone. -/
theorem skip (h : st.Inv) {a : Arrival} (hperiods : (st.next pid a).periods = st.periods)
    (htfd : (st.next pid a).tfd = st.tfd) : (st.next pid a).Inv := by
  have hnow : st.now ≤ (st.next pid a).now := Nat.le_add_right _ _
  constructor
  · rw [hperiods]
    exact fun p hp => (h.started p hp).trans hnow
  · rw [hperiods]
    exact h.ordered
  · rw [hperiods, htfd]
    exact fun t ht => h.inside t (hnow.trans ht)
  · rw [hperiods, htfd]
    exact fun t ht => h.outside t (hnow.trans ht)

/-- A task that is taken: the periods so far have ended, and the timer is set. -/
theorem take (h : st.Inv) {now : ℕ} {served : List Served} (timer : Int32) (hnow : st.now ≤ now)
    (hidle : st.tfd.remaining now = 0)
    (hserved : served.filterMap (·.period?) = st.periods ++ [⟨now, timer⟩]) :
    (⟨now, st.tfd.settime now timer.toInt, served⟩ : Shift).Inv := by
  have hended : ∀ p ∈ st.periods, p.stop ≤ now := fun p hp => by
    by_contra hlt
    have hbusy := h.inside now hnow p hp (Nat.not_le.1 hlt)
    omega
  have hperiods : (⟨now, st.tfd.settime now timer.toInt, served⟩ : Shift).periods =
      st.periods ++ [⟨now, timer⟩] := hserved
  have hleft : ∀ t, now ≤ t → (st.tfd.settime now timer.toInt).remaining t =
      (⟨now, timer⟩ : Period).stop - t := fun t ht => Timer.remaining_settime hidle _ ht
  constructor
  · rw [hperiods]
    intro p hp
    rcases List.mem_append.1 hp with hp | hp
    · exact (h.started p hp).trans hnow
    · rw [List.mem_singleton.1 hp]
  · rw [hperiods, List.pairwise_append]
    refine ⟨h.ordered, List.pairwise_singleton _ _, fun p hp q hq => ?_⟩
    rw [List.mem_singleton.1 hq]
    exact hended p hp
  · rw [hperiods]
    intro t ht p hp hlt
    rcases List.mem_append.1 hp with hp | hp
    · exact absurd (hended p hp) (by have : now ≤ t := ht; omega)
    · rw [List.mem_singleton.1 hp]
      exact hleft t ht
  · rw [hperiods]
    intro t ht hall
    have hlast := hall ⟨now, timer⟩ (by simp)
    exact (hleft t ht).trans (Nat.sub_eq_zero_of_le hlast)

/-- Every request keeps the invariant. -/
theorem next (h : st.Inv) (a : Arrival) : (st.next pid a).Inv := by
  have heq := next_eq pid st a
  obtain ⟨delay, request⟩ := a
  have hnow : st.now ≤ st.now + delay := Nat.le_add_right _ _
  cases request with
  | status =>
    refine h.skip ?_ ?_
    · rw [heq]
      simp [Shift.periods, Served.period?]
    · rw [heq]
      rfl
  | task timer =>
    by_cases hbusy : 0 < st.tfd.remaining (st.now + delay)
    · refine h.skip ?_ ?_
      · rw [heq]
        simp [Shift.periods, Served.period?, Request.reply, hbusy]
      · rw [heq]
        exact if_pos hbusy
    · have hserve : (Request.task timer).serve st.tfd (st.now + delay) =
          st.tfd.settime (st.now + delay) timer.toInt := if_neg hbusy
      rw [heq, hserve]
      refine h.take timer hnow (Nat.le_zero.1 (Nat.not_lt.1 hbusy)) ?_
      simp [Shift.periods, Served.period?, Request.reply, hbusy]

end Shift.Inv

theorem Shift.inv_after (pid : ℤ) (history : List Arrival) : (Shift.after pid history).Inv := by
  induction history using List.reverseRecOn with
  | nil => exact Shift.inv_start
  | append_singleton history a ih =>
    rw [Shift.after, List.foldl_append]
    exact ih.next a

/-! ## The law -/

/-- What the answer `msg` to the next request of a driver obeys. -/
structure BusyLaw (pid : ℤ) (st : Shift) (a : Arrival) (msg : IpcMsg) : Prop where
  /-- The periods never overlap. -/
  disjoint : (st.next pid a).periods.Pairwise fun p q => Disjoint p.span q.span
  /-- A task is acknowledged exactly outside the earlier periods. -/
  acknowledged : ∀ timer, a.request = .task timer →
    (msg.type = .ack ↔ ∀ p ∈ st.periods, st.now + a.delay ∉ p.span)
  /-- Inside a period it is refused, with the time that is left. -/
  refused : ∀ timer, a.request = .task timer → ∀ p ∈ st.periods, st.now + a.delay ∈ p.span →
    msg.type = .busy ∧ (st.next pid a).tfd = st.tfd ∧ p.Carries (st.now + a.delay) msg.payload
  /-- A status is the time that is left. -/
  status : a.request = .status → msg.type = .statusRsp ∧ (st.next pid a).tfd = st.tfd ∧
    (∀ p ∈ st.periods, st.now + a.delay ∈ p.span → p.Carries (st.now + a.delay) msg.payload) ∧
    ((∀ p ∈ st.periods, st.now + a.delay ∉ p.span) → msg.payload = 0)
  /-- The server prints `Busy` exactly when the driver is busy. -/
  printed : ∃ l, printReply pid msg = some l ∧
    (l.isBusy = true ↔ ∃ p ∈ st.periods, st.now + a.delay ∈ p.span)

theorem Shift.Inv.pairwise_disjoint {st : Shift} (h : st.Inv) :
    st.periods.Pairwise fun p q => Disjoint p.span q.span := by
  refine h.ordered.imp fun {p q} hpq => Set.disjoint_left.2 fun t hp hq => ?_
  exact absurd (hp.2.trans_le hpq) (Nat.not_lt.2 hq.1)

section

variable {st : Shift} {a : Arrival}

/-- The driver is idle when no period lasts. -/
theorem Shift.Inv.idle_iff (h : st.Inv) : (∀ p ∈ st.periods, st.now + a.delay ∉ p.span) ↔
    ¬ 0 < st.tfd.remaining (st.now + a.delay) := by
  rw [h.busy_iff (Nat.le_add_right _ _)]
  push Not
  rfl

/-- The timer shows the time left of the period that lasts. -/
theorem Shift.Inv.carries (h : st.Inv) {p : Period} (hp : p ∈ st.periods)
    (ht : st.now + a.delay ∈ p.span) : p.Carries (st.now + a.delay)
      (Int32.ofNat (ceilSeconds (st.tfd.remaining (st.now + a.delay)))) := by
  rw [h.inside _ (Nat.le_add_right _ _) p hp ht.2]
  exact Period.carries ht

/-- The driver answers by the law. -/
theorem Shift.Inv.busyLaw (h : st.Inv) (pid : ℤ) (a : Arrival) :
    BusyLaw pid st a (a.request.reply pid st.tfd (st.now + a.delay)) := by
  have hnow : st.now ≤ st.now + a.delay := Nat.le_add_right _ _
  have hbusy := h.busy_iff hnow
  have hnext := Shift.Inv.next_eq pid st a
  constructor
  case disjoint => exact (h.next a).pairwise_disjoint
  case acknowledged =>
    intro timer htask
    rw [htask, Request.reply, h.idle_iff]
    split
    · rename_i hrun
      exact iff_of_false (fun hack => by cases hack) fun hno => hno hrun
    · rename_i hno
      exact iff_of_true rfl hno
  case refused =>
    intro timer htask p hp ht
    have hrun := hbusy.2 ⟨p, hp, ht⟩
    rw [hnext, htask, Request.reply, Request.serve, if_pos hrun, if_pos hrun]
    exact ⟨rfl, rfl, h.carries hp ht⟩
  case status =>
    intro hstatus
    rw [hnext, hstatus]
    refine ⟨rfl, rfl, fun p hp ht => h.carries hp ht, fun hout => ?_⟩
    rw [Request.reply, Nat.le_zero.1 (Nat.not_lt.1 (h.idle_iff.1 hout))]
    rfl
  case printed =>
    refine ⟨_, printReply_reply pid pid (h.remaining_le hnow) a.request, ?_⟩
    rw [← hbusy]
    unfold Request.line
    split
    · rename_i hrun
      exact iff_of_true rfl hrun
    · rename_i hno
      refine iff_of_false ?_ hno
      cases a.request <;> exact Bool.false_ne_true

end

/-- **Busy periods**: after any history of requests at any times, the next one is answered by
`BusyLaw`. -/
theorem busy_periods (pid : ℤ) (history : List Arrival) (a : Arrival) :
    ∃ msg, (Shift.after pid history).reply pid a = some msg ∧ msg.driverPid = pid ∧
      BusyLaw pid (Shift.after pid history) a msg := by
  have hinv := Shift.inv_after pid history
  generalize Shift.after pid history = st at hinv ⊢
  refine ⟨a.request.reply pid st.tfd (st.now + a.delay), ?_, ?_, hinv.busyLaw pid a⟩
  · rw [Shift.reply, driverRun_request]
  · cases a.request with
    | task timer =>
      rw [Request.reply]
      split <;> rfl
    | status => rfl

end EltexPractice.Taxi
