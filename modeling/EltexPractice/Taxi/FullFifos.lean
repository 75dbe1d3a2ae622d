import EltexPractice.Taxi.RequestResponse

/-!
# Full FIFOs

With FIFOs of a finite capacity the `write` of a request or of a reply fails when the FIFO is full,
and nobody looks at the result. For each driver, `balance` is the number of requests issued to it
that are neither answered by a line nor still on their way: an action raises it by one exactly when
it writes to a full FIFO of the driver (`Sound.balance_step`). So no request is lost as long as
every write finds room, and only then (`conserved_iff`).
-/

namespace EltexPractice.Taxi

/-- An output that tells the operator that a request to the driver `pid` failed: there is none. -/
def Output.reportsFailure (_pid : ℤ) : Output → Bool
  | line _ => false
  | created _ => false
  | notFound _ => false
  | noDrivers => false

/-- A reply of a driver: the server prints a line for it. -/
def IpcMsg.IsReply (msg : IpcMsg) : Prop := ∀ pid, ∃ l, printReply pid msg = some l ∧ l.pid = pid

theorem Request.isReply_reply (pid : ℤ) (tfd : Timer) (now : ℕ) (req : Request) :
    (req.reply pid tfd now).IsReply := by
  intro pid'
  cases req with
  | task timer =>
    rw [Request.reply]
    split <;> exact ⟨_, rfl, rfl⟩
  | status =>
    refine ⟨handleStatusRsp pid' (Int32.ofNat (ceilSeconds (tfd.remaining now))), rfl, ?_⟩
    rw [handleStatusRsp]
    split <;> rfl

namespace System

/-- The failures of requests to the driver `pid` that the operator was told. -/
def failuresReported (st : System) (pid : ℤ) : ℕ :=
  (st.output.filter (·.reportsFailure pid)).length

/-- The requests issued to the driver `i` are printed, on their way, or reported as failed. -/
def Conserved (st : System) (i : ℕ) (p : Driver) : Prop :=
  (st.issued i).length = (st.linesFor p.pid).length + (st.fifos (.req i)).length +
    (st.fifos (.rsp i)).length + st.failuresReported p.pid

/-- The action writes a request or a reply to a full FIFO of the driver `i`. -/
def WritesToFull (cap : ℕ) (st : System) (i : ℕ) : Action → Prop
  | .cli (.sendTask pid _) | .cli (.getStatus pid) =>
    (∃ p, st.procs[i]? = some p ∧ p.pid = pid) ∧ cap ≤ (st.fifos (.req i)).length
  | .cli .getDrivers => cap ≤ (st.fifos (.req i)).length
  | .driver j => j = i ∧ cap ≤ (st.fifos (.rsp i)).length
  | _ => False

/-- Every write of the action finds room. -/
def FindsRoom (cap : ℕ) (st : System) (a : Action) : Prop :=
  ∀ i < st.procs.length, ¬ st.WritesToFull cap i a

/-- The requests that are neither printed nor on their way. -/
def balance (st : System) (i : ℕ) (pid : ℤ) : ℤ :=
  (st.issued i).length - (st.linesFor pid).length - (st.fifos (.req i)).length -
    (st.fifos (.rsp i)).length

theorem failuresReported_eq_zero (st : System) (pid : ℤ) : st.failuresReported pid = 0 := by
  rw [failuresReported, List.length_eq_zero_iff, List.filter_eq_nil_iff]
  intro out _
  cases out <;> exact Bool.false_ne_true

theorem conserved_iff_balance {st : System} {i : ℕ} {p : Driver} :
    st.Conserved i p ↔ st.balance i p.pid = 0 := by
  rw [Conserved, failuresReported_eq_zero, balance]
  omega

/-- A balance that grows by one exactly if a request is lost. -/
structure Books (lost : Prop) (before after : ℤ) : Prop where
  kept : ¬ lost → after = before
  missed : lost → after = before + 1

/-! ## Writes -/

/-- What holds between two actions, whatever the capacity. -/
structure Sound (st : System) : Prop where
  wiring : st.Wiring
  fresh : ∀ i, st.procs.length ≤ i →
    st.issued i = [] ∧ st.fifos (.req i) = [] ∧ st.fifos (.rsp i) = []
  known : ∀ l ∈ st.lines, ∃ p ∈ st.procs, p.pid = l.pid
  requests : ∀ i, ∀ msg ∈ st.fifos (.req i), ∃ req : Request, msg = req.msg
  replies : ∀ i, ∀ msg ∈ st.fifos (.rsp i), msg.IsReply

theorem sound_init : init.Sound where
  wiring := inv_init.wiring
  fresh _ _ := ⟨rfl, rfl, rfl⟩
  known := nofun
  requests _ := nofun
  replies _ := nofun

theorem writeFifo_some (cap : ℕ) (st : System) (f : Fifo) (msg : IpcMsg) :
    st.writeFifo (some cap) f msg = { st with
      fifos := if (st.fifos f).length < cap then Function.update st.fifos f (st.fifos f ++ [msg])
        else st.fifos } := by
  simp only [writeFifo, Option.mem_some_iff, forall_eq']
  split <;> rfl

theorem writeRequest_eq {st : System} {i : ℕ} {p : Driver} {drv : DriverInfo}
    (hdrv : st.Entry i p drv) (cap : ℕ) (req : Request) :
    st.writeRequest (some cap) drv.reqFd req = { st with
      issued := Function.update st.issued i (st.issued i ++ [req])
      fifos := if (st.fifos (.req i)).length < cap then
        Function.update st.fifos (.req i) (st.fifos (.req i) ++ [req.msg]) else st.fifos } := by
  rw [writeRequest, hdrv.req]
  simp only [writeFifo_some]

/-- What one request changes. -/
structure Requested (cap : ℕ) (st : System) (i : ℕ) (st' : System) : Prop where
  drivers_eq : st'.drivers = st.drivers
  fds_eq : st'.fds = st.fds
  procs_eq : st'.procs = st.procs
  fifos_eq : ∀ j ≠ i, st'.fifos (.req j) = st.fifos (.req j)
  books : ∀ j pid, Books (j = i ∧ cap ≤ (st.fifos (.req i)).length) (st.balance j pid)
    (st'.balance j pid)

/-- The drivers of a state keep their books, and those that are new owe nothing. -/
def Follows (lost : ℕ → Prop) (st st' : System) : Prop :=
  (∀ j q, st.procs[j]? = some q → ∃ q', st'.procs[j]? = some q' ∧ q'.pid = q.pid ∧
      Books (lost j) (st.balance j q.pid) (st'.balance j q.pid)) ∧
    ∀ j q, st.procs.length ≤ j → st'.procs[j]? = some q → st'.balance j q.pid = 0

/-- No driver is new when the pids stay. -/
theorem follows_of_pids {lost : ℕ → Prop} {st st' : System}
    (hpids : st'.procs.map (·.pid) = st.procs.map (·.pid))
    (hbooks : ∀ j q, st.procs[j]? = some q →
      Books (lost j) (st.balance j q.pid) (st'.balance j q.pid)) : Follows lost st st' := by
  refine ⟨fun j q hq => ?_, fun j q hj hq => ?_⟩
  · have hpid : (st'.procs.map (·.pid))[j]? = some q.pid := by
      rw [hpids, List.getElem?_map, hq]
      rfl
    rw [List.getElem?_map] at hpid
    obtain ⟨q', hq', hpid'⟩ := Option.map_eq_some_iff.1 hpid
    exact ⟨q', hq', hpid', hbooks j q hq⟩
  · have hlen := congrArg List.length hpids
    rw [List.length_map, List.length_map] at hlen
    exact absurd (List.getElem?_eq_some_iff.1 hq).1 (by omega)

namespace Sound

variable {st st' : System} {i : ℕ} {p : Driver} {drv : DriverInfo} {cap : ℕ}

theorem writeRequest (h : st.Sound) (cap : ℕ) (hp : st.procs[i]? = some p) (hdrv : st.Entry i p drv)
    (req : Request) : (st.writeRequest (some cap) drv.reqFd req).Sound ∧
      Requested cap st i (st.writeRequest (some cap) drv.reqFd req) := by
  have hlt := (List.getElem?_eq_some_iff.1 hp).1
  rw [writeRequest_eq hdrv]
  refine ⟨⟨h.wiring.congr rfl rfl rfl, fun j hj => ?_, h.known, fun j msg hmsg => ?_,
    fun j msg hmsg => ?_⟩, rfl, rfl, rfl, fun j hj => ?_, fun j pid => ?_⟩
  · have hne : j ≠ i := fun heq => absurd hj (Nat.not_le.2 (heq ▸ hlt))
    have hold := h.fresh j hj
    dsimp only
    split <;> simpa [hne] using hold
  · dsimp only at hmsg
    split at hmsg
    · rcases eq_or_ne j i with rfl | hne
      · rw [Function.update_self, List.mem_append, List.mem_singleton] at hmsg
        rcases hmsg with hmsg | rfl
        · exact h.requests j msg hmsg
        · exact ⟨req, rfl⟩
      · rw [Function.update_of_ne (by simpa using hne)] at hmsg
        exact h.requests j msg hmsg
    · exact h.requests j msg hmsg
  · dsimp only at hmsg
    split at hmsg
    · rw [Function.update_of_ne (by simp)] at hmsg
      exact h.replies j msg hmsg
    · exact h.replies j msg hmsg
  · dsimp only
    split
    · rw [Function.update_of_ne (by simpa using hj)]
    · rfl
  · rcases eq_or_ne j i with rfl | hne
    · by_cases hroom : (st.fifos (.req j)).length < cap
      · refine ⟨fun _ => ?_, fun hfull => absurd hroom (Nat.not_lt.2 hfull.2)⟩
        simp [balance, hroom, linesFor, lines]
        omega
      · refine ⟨fun hfull => absurd ⟨rfl, Nat.le_of_not_lt hroom⟩ hfull, fun _ => ?_⟩
        simp [balance, hroom, linesFor, lines]
        omega
    · refine ⟨fun _ => ?_, fun hfull => absurd hfull.1 hne⟩
      simp only [balance, linesFor, lines, Function.update_of_ne hne]
      split
      · simp [hne]
      · rfl

/-- Printing something that is no line about a driver. -/
theorem print (h : st.Sound) (out : Output) (hout : out.line? = none) : (st.print out).Sound ∧
    ∀ j pid, (st.print out).balance j pid = st.balance j pid := by
  have hlines : (st.print out).lines = st.lines := by
    rw [lines_print, hout]
    exact List.append_nil _
  refine ⟨⟨h.wiring.congr rfl rfl rfl, h.fresh, ?_, h.requests, h.replies⟩, fun j pid => ?_⟩
  · rw [hlines]
    exact h.known
  · simp only [balance, linesFor, hlines]
    rfl

/-! ## The commands -/

/-- A request to the driver with the pid `pid`, if there is one. -/
theorem request (h : st.Sound) (cap : ℕ) (pid : ℤ) (req : Request) {st' : System}
    (hst' : st' = match st.findDriver pid with
      | none => st.print (.notFound pid)
      | some drv => st.writeRequest (some cap) drv.reqFd req) :
    st'.Sound ∧ st'.procs = st.procs ∧ ∀ j q, st.procs[j]? = some q →
      Books ((∃ p, st.procs[j]? = some p ∧ p.pid = pid) ∧ cap ≤ (st.fifos (.req j)).length)
        (st.balance j q.pid) (st'.balance j q.pid) := by
  cases hfind : st.findDriver pid with
  | none =>
    rw [hfind] at hst'
    obtain rfl := hst'
    obtain ⟨hsound, hbalance⟩ := h.print (.notFound pid) rfl
    refine ⟨hsound, rfl, fun j q hq => ⟨fun _ => hbalance j q.pid, fun hfull => ?_⟩⟩
    obtain ⟨⟨p, hp, hpid⟩, -⟩ := hfull
    exact absurd hpid (h.wiring.findDriver_none hfind hp)
  | some drv =>
    rw [hfind] at hst'
    obtain rfl := hst'
    obtain ⟨i, p, hp, hdrv, hpid⟩ := h.wiring.findDriver hfind
    obtain ⟨hsound, hreq⟩ := h.writeRequest cap hp hdrv req
    have hbooks := hreq.books
    refine ⟨hsound, hreq.procs_eq, fun j q hq => ⟨fun hroom => ?_, fun hfull => ?_⟩⟩
    · refine (hbooks j q.pid).kept fun hfull => hroom ?_
      obtain ⟨rfl, hfull⟩ := hfull
      exact ⟨⟨p, hp, hpid⟩, hfull⟩
    · obtain ⟨⟨p', hp', hpid'⟩, hfull⟩ := hfull
      have hij : i = j := h.wiring.index_unique hp hp' (hpid.trans hpid'.symm)
      exact (hbooks j q.pid).missed ⟨hij.symm, hij ▸ hfull⟩

/-- The loop of `handle_get_drivers` over the table from the slot `k` on. -/
theorem writeRequests (h : st.Sound) (cap : ℕ) {drvs : List DriverInfo} (k : ℕ)
    (hdrvs : ∀ l drv, drvs[l]? = some drv → ∃ p, st.procs[k + l]? = some p ∧ st.Entry (k + l) p drv)
    {st' : System}
    (hst' : st' = drvs.foldl (fun st drv => st.writeRequest (some cap) drv.reqFd .status) st) :
    st'.Sound ∧ st'.procs = st.procs ∧ ∀ j pid,
      Books ((k ≤ j ∧ j < k + drvs.length) ∧ cap ≤ (st.fifos (.req j)).length)
        (st.balance j pid) (st'.balance j pid) := by
  induction drvs generalizing st k with
  | nil =>
    obtain rfl := hst'
    refine ⟨h, rfl, fun j pid => ⟨fun _ => rfl, fun hfull => ?_⟩⟩
    have hj := hfull.1
    rw [List.length_nil] at hj
    omega
  | cons drv drvs ih =>
    obtain ⟨p, hp, hdrv⟩ := hdrvs 0 drv rfl
    obtain ⟨hsound, hreq⟩ := h.writeRequest cap hp hdrv .status
    rw [List.foldl_cons] at hst'
    have hrest := ih hsound (k + 1) (fun l drv' hdrv' => by
      obtain ⟨q, hq, hentry⟩ := hdrvs (l + 1) drv' hdrv'
      rw [show k + (l + 1) = k + 1 + l by omega] at hq hentry
      exact ⟨q, hreq.procs_eq ▸ hq, hentry.congr hreq.drivers_eq hreq.fds_eq rfl⟩) hst'
    obtain ⟨hsound', hprocs', hbooks'⟩ := hrest
    have hbooks := hreq.books
    refine ⟨hsound', hprocs'.trans hreq.procs_eq, fun j pid => ?_⟩
    rw [List.length_cons]
    rcases eq_or_ne j k with rfl | hne
    · -- the first slot: the rest of the loop leaves its driver alone
      have hlater := (hbooks' j pid).kept fun hfull => by omega
      rw [hlater]
      refine ⟨fun hroom => (hbooks j pid).kept fun hfull => hroom ⟨by omega, hfull.2⟩,
        fun hfull => (hbooks j pid).missed ⟨rfl, hfull.2⟩⟩
    · have hfirst := (hbooks j pid).kept fun hfull => hne hfull.1
      have hiff := hbooks' j pid
      rw [hfirst, hreq.fifos_eq j hne] at hiff
      refine ⟨fun hroom => hiff.kept fun hfull => hroom ⟨by omega, hfull.2⟩,
        fun hfull => hiff.missed ⟨by omega, hfull.2⟩⟩

theorem handleGetDrivers (h : st.Sound) (cap : ℕ) : (st.handleGetDrivers (some cap)).Sound ∧
    (st.handleGetDrivers (some cap)).procs = st.procs ∧ ∀ j q, st.procs[j]? = some q →
      Books (cap ≤ (st.fifos (.req j)).length) (st.balance j q.pid)
        ((st.handleGetDrivers (some cap)).balance j q.pid) := by
  rw [System.handleGetDrivers]
  split
  · rename_i hnone
    obtain ⟨hsound, hbalance⟩ := h.print .noDrivers rfl
    refine ⟨hsound, rfl, fun j q hq => ?_⟩
    have hlt := (List.getElem?_eq_some_iff.1 hq).1
    rw [← h.wiring.length, hnone] at hlt
    exact absurd hlt (Nat.not_lt_zero j)
  · obtain ⟨hsound, hprocs, hbooks⟩ := h.writeRequests cap 0
      (fun l drv hdrv => by
        rw [Nat.zero_add]
        exact h.wiring.entry_of_slot hdrv) rfl
    refine ⟨hsound, hprocs, fun j q hq => ?_⟩
    have hlt := (List.getElem?_eq_some_iff.1 hq).1
    rw [← h.wiring.length, ← Table.length_toList] at hlt
    exact ⟨fun hroom => (hbooks j q.pid).kept fun hfull => hroom hfull.2,
      fun hfull => (hbooks j q.pid).missed ⟨by omega, hfull⟩⟩

theorem handleCreateDriver (h : st.Sound) {pid : ℤ} {reqFd rspFd : ℕ}
    (hpid : ∀ p ∈ st.procs, p.pid ≠ pid) (hne : reqFd ≠ rspFd) (hreq : st.fds reqFd = none)
    (hrsp : st.fds rspFd = none) : (st.handleCreateDriver pid reqFd rspFd).Sound ∧
      Follows (fun _ => False) st (st.handleCreateDriver pid reqFd rspFd) := by
  have hwiring := h.wiring.handleCreateDriver hpid hne hreq hrsp
  unfold System.handleCreateDriver at hwiring ⊢
  split
  · rename_i hroom
    rw [dif_pos hroom] at hwiring
    set st' : System := { st with
      drivers := st.drivers.push ⟨pid, reqFd, rspFd⟩ hroom
      fds := Function.update (Function.update st.fds reqFd (some (.req st.drivers.count))) rspFd
        (some (.rsp st.drivers.count))
      masterSet := rspFd :: st.masterSet
      maxFd := if rspFd > st.maxFd then rspFd else st.maxFd
      procs := st.procs ++ [⟨pid, .disarmed, []⟩]
      output := st.output ++ [.created pid] } with hst'
    have hlines : st'.lines = st.lines := by simp [lines, hst', Output.line?]
    have hbalance : ∀ j pid, st'.balance j pid = st.balance j pid := fun j pid => by
      rw [balance, linesFor, hlines]
      rfl
    refine ⟨⟨hwiring, fun j hj => ?_, ?_, h.requests, h.replies⟩, fun j q hq => ?_,
      fun j q hj hq => ?_⟩
    · refine h.fresh j (Nat.le_of_succ_le ?_)
      simpa [hst'] using hj
    · rw [hlines]
      intro l hl
      obtain ⟨p, hp, heq⟩ := h.known l hl
      exact ⟨p, List.mem_append_left _ hp, heq⟩
    · refine ⟨q, ?_, rfl, fun _ => hbalance j q.pid, False.elim⟩
      exact (List.getElem?_append_left (List.getElem?_eq_some_iff.1 hq).1).trans hq
    · rcases cases_of_getElem?_concat hq with hq | ⟨-, rfl⟩
      · exact absurd (List.getElem?_eq_some_iff.1 hq).1 (Nat.not_lt.2 hj)
      · obtain ⟨hissued, hreqs, hrsps⟩ := h.fresh j hj
        have hnone : st.linesFor pid = [] := by
          refine List.filter_eq_nil_iff.2 fun l hl => ?_
          obtain ⟨p, hp, heq⟩ := h.known l hl
          simpa [heq] using hpid p hp
        rw [hbalance, balance, hissued, hreqs, hrsps, hnone]
        rfl
  · exact ⟨h, follows_of_pids rfl fun j q _ => ⟨fun _ => rfl, False.elim⟩⟩

/-! ## The drivers and the replies -/

/-- What is in a FIFO when a message has been taken from one was there before. -/
theorem mem_of_mem_pop {f g : Fifo} {msg msg' : IpcMsg} {rest : List IpcMsg}
    (hfifo : st.fifos f = msg :: rest) (h : msg' ∈ Function.update st.fifos f rest g) :
    msg' ∈ st.fifos g := by
  rcases eq_or_ne g f with rfl | hne
  · rw [Function.update_self] at h
    rw [hfifo]
    exact List.mem_cons_of_mem _ h
  · rwa [Function.update_of_ne hne] at h

/-- A driver reads a request and writes its reply. -/
theorem driverStep (h : st.Sound) (hs : st.driverStep (some cap) i = some st') : st'.Sound ∧
    Follows (fun j => i = j ∧ cap ≤ (st.fifos (.rsp j)).length) st st' := by
  unfold System.driverStep at hs
  split at hs
  · rename_i p msg rest hp hfifo
    have hlt := (List.getElem?_eq_some_iff.1 hp).1
    obtain ⟨req, rfl⟩ := h.requests i msg (by rw [hfifo]; exact List.mem_cons_self)
    simp only [Driver.turn_request, writeFifo_some] at hs
    obtain rfl := Option.some.inj hs
    have hpids : (st.procs.set i ⟨p.pid, req.serve p.tfd st.now,
        p.handled ++ [⟨req, p.tfd, st.now⟩]⟩).map (·.pid) = st.procs.map (·.pid) :=
      map_set_of_eq hp rfl
    have hrsp : Function.update st.fifos (.req i) rest (.rsp i) = st.fifos (.rsp i) :=
      Function.update_of_ne (by simp) ..
    rw [hrsp]
    refine ⟨⟨h.wiring.congr rfl rfl hpids, fun j hj => ?_,
      fun l hl => exists_pid_congr hpids (h.known l hl), fun j msg hmsg => ?_,
      fun j msg hmsg => ?_⟩, follows_of_pids hpids fun j q _ => ?_⟩
    · rw [List.length_set] at hj
      have hne : j ≠ i := fun heq => absurd hj (Nat.not_le.2 (heq ▸ hlt))
      have hold := h.fresh j hj
      dsimp only
      split <;> simpa [hne] using hold
    · dsimp only at hmsg
      split at hmsg
      · rw [Function.update_of_ne (by simp)] at hmsg
        exact h.requests j msg (mem_of_mem_pop hfifo hmsg)
      · exact h.requests j msg (mem_of_mem_pop hfifo hmsg)
    · dsimp only at hmsg
      split at hmsg
      · rcases eq_or_ne j i with rfl | hne
        · rw [Function.update_self, List.mem_append, List.mem_singleton] at hmsg
          rcases hmsg with hmsg | rfl
          · exact h.replies j msg hmsg
          · exact req.isReply_reply p.pid p.tfd st.now
        · rw [Function.update_of_ne (by simpa using hne), Function.update_of_ne (by simp)] at hmsg
          exact h.replies j msg hmsg
      · rw [Function.update_of_ne (by simp)] at hmsg
        exact h.replies j msg hmsg
    · rcases eq_or_ne j i with rfl | hne
      · -- the request leaves the one FIFO, and the reply enters the other if it can
        by_cases hroom : (st.fifos (.rsp j)).length < cap
        · refine ⟨fun _ => ?_, fun hfull => absurd hroom (Nat.not_lt.2 hfull.2)⟩
          simp [balance, hroom, linesFor, lines, hfifo]
          omega
        · refine ⟨fun hfull => absurd ⟨rfl, Nat.le_of_not_lt hroom⟩ hfull, fun _ => ?_⟩
          simp [balance, hroom, linesFor, lines, hfifo]
          omega
      · refine ⟨fun _ => ?_, fun hfull => absurd hfull.1.symm hne⟩
        simp only [balance, linesFor, lines]
        split <;> simp [hne]
  · cases hs

/-- The server reads a reply and prints its line. -/
theorem processDriverMessage (h : st.Sound) (hp : st.procs[i]? = some p)
    (hdrv : st.Entry i p drv) : (st.processDriverMessage drv.rspFd).Sound ∧
      Follows (fun _ => False) st (st.processDriverMessage drv.rspFd) := by
  have hmem := List.mem_of_getElem? hp
  have hlt := (List.getElem?_eq_some_iff.1 hp).1
  unfold System.processDriverMessage
  rw [hdrv.rsp]
  simp only [h.wiring.foldl_pid hp hdrv]
  split
  · exact ⟨h, follows_of_pids rfl fun j q _ => ⟨fun _ => rfl, False.elim⟩⟩
  · rename_i msg rest hfifo
    obtain ⟨l, hprint, hpid⟩ := h.replies i msg (by rw [hfifo]; exact List.mem_cons_self) p.pid
    simp only [hprint]
    set st' := System.print { st with fifos := Function.update st.fifos (.rsp i) rest } (.line l)
      with hst'
    have hlines : st'.lines = st.lines ++ [l] := lines_print _ _
    have hfor : ∀ pid, st'.linesFor pid = st.linesFor pid ++ if l.pid = pid then [l] else [] :=
      fun pid => by
        rw [linesFor, hlines, List.filter_append, linesFor, List.filter_singleton]
        simp
    refine ⟨⟨h.wiring.congr rfl rfl rfl, fun j hj => ?_, ?_, fun j msg' hmsg => ?_,
      fun j msg' hmsg => ?_⟩, follows_of_pids rfl fun j q hq => ⟨fun _ => ?_, False.elim⟩⟩
    · have hne : j ≠ i := fun heq => absurd hj (Nat.not_le.2 (heq ▸ hlt))
      simpa [hst', System.print, hne] using h.fresh j hj
    · rw [hlines]
      intro l' hl'
      rcases List.mem_append.1 hl' with hl' | hl'
      · exact h.known l' hl'
      · rw [List.mem_singleton.1 hl']
        exact ⟨p, hmem, hpid.symm⟩
    · exact h.requests j msg' (mem_of_mem_pop hfifo hmsg)
    · exact h.replies j msg' (mem_of_mem_pop hfifo hmsg)
    · rw [balance, hfor]
      rcases eq_or_ne j i with rfl | hne
      · obtain rfl := Option.some.inj (hq.symm.trans hp)
        rw [if_pos hpid]
        simp [balance, hst', System.print, hfifo]
        omega
      · have hother : l.pid ≠ q.pid := fun heq =>
          hne (h.wiring.index_unique hq hp (heq.symm.trans hpid))
        rw [if_neg hother, List.append_nil]
        simp [balance, hst', System.print, hne]

/-! ## Runs -/

/-- **One action** keeps what holds, and raises the balance of the drivers to whose full FIFOs it
writes. -/
theorem balance_step (h : st.Sound) {a : Action} (hs : System.step (some cap) st a = some st') :
    st'.Sound ∧ Follows (fun j => st.WritesToFull cap j a) st st' := by
  cases a with
  | cli cmd =>
    rw [System.step] at hs
    cases cmd with
    | createDriver pid reqFd rspFd =>
      rw [processCliInput] at hs
      split at hs
      · rename_i hnew
        obtain rfl := Option.some.inj hs
        obtain ⟨-, hpid, hne, -, -, hreq, hrsp⟩ := hnew
        exact h.handleCreateDriver hpid hne hreq hrsp
      · cases hs
    | sendTask pid timer =>
      obtain rfl := Option.some.inj hs
      obtain ⟨hsound, hprocs, hbooks⟩ := h.request cap pid (.task timer) rfl
      exact ⟨hsound, follows_of_pids (congrArg _ hprocs) hbooks⟩
    | getStatus pid =>
      obtain rfl := Option.some.inj hs
      obtain ⟨hsound, hprocs, hbooks⟩ := h.request cap pid .status rfl
      exact ⟨hsound, follows_of_pids (congrArg _ hprocs) hbooks⟩
    | getDrivers =>
      obtain rfl := Option.some.inj hs
      obtain ⟨hsound, hprocs, hbooks⟩ := h.handleGetDrivers cap
      exact ⟨hsound, follows_of_pids (congrArg _ hprocs) hbooks⟩
  | driver i => exact h.driverStep hs
  | read i =>
    rw [System.step] at hs
    split at hs
    · rename_i drv hslot
      split at hs
      · obtain rfl := Option.some.inj hs
        obtain ⟨p, hp, hdrv⟩ := h.wiring.entry_of_slot hslot
        exact h.processDriverMessage hp hdrv
      · cases hs
    · cases hs
  | tick ns =>
    obtain rfl := Option.some.inj hs
    exact ⟨⟨h.wiring.congr rfl rfl rfl, h.fresh, h.known, h.requests, h.replies⟩,
      follows_of_pids rfl fun j q _ => ⟨fun _ => rfl, False.elim⟩⟩

end Sound

/-- No request is lost. -/
def AllConserved (st : System) : Prop :=
  ∀ (i : ℕ) (p : Driver), st.procs[i]? = some p → st.Conserved i p

/-- From a state in which no request is lost, an action loses none exactly when it finds room. -/
theorem allConserved_step {cap : ℕ} {st st' : System} {a : Action} (h : st.Sound)
    (hst : st.AllConserved) (hs : step (some cap) st a = some st') :
    st'.AllConserved ↔ st.FindsRoom cap a := by
  obtain ⟨-, hold, hnew⟩ := h.balance_step hs
  constructor
  · intro hst' j hj hfull
    obtain ⟨q', hq', hpid, hbooks⟩ := hold j _ (List.getElem?_eq_getElem hj)
    have hafter := conserved_iff_balance.1 (hst' j q' hq')
    have hbefore := conserved_iff_balance.1 (hst j _ (List.getElem?_eq_getElem hj))
    rw [hpid, hbooks.missed hfull, hbefore] at hafter
    omega
  · intro hroom j q' hq'
    rw [conserved_iff_balance]
    rcases Nat.lt_or_ge j st.procs.length with hj | hj
    · obtain ⟨q'', hq'', hpid, hbooks⟩ := hold j _ (List.getElem?_eq_getElem hj)
      obtain rfl := Option.some.inj (hq''.symm.trans hq')
      rw [hpid, hbooks.kept (hroom j hj)]
      exact conserved_iff_balance.1 (hst j _ (List.getElem?_eq_getElem hj))
    · exact hnew j q' hj hq'

/-- **No request is lost** in any state of a run exactly when every write of the run, of a request
by the server or of a reply by a driver, finds room in its FIFO. -/
theorem conserved_iff {cap : ℕ} {as : List Action} {st : System}
    (h : runFrom (step (some cap)) init as = some st) :
    (∀ bs s, bs <+: as → runFrom (step (some cap)) init bs = some s → s.AllConserved) ↔
      StepsMeet (step (some cap)) (FindsRoom cap) init as :=
  stepsMeet_iff (I := Sound) (fun _ _ _ hsound hs => (hsound.balance_step hs).1)
    (fun _ _ _ hsound hall hs => allConserved_step hsound hall hs) sound_init nofun h

/-- Where no FIFO is full, every write finds room. -/
theorem findsRoom_of_lt {cap : ℕ} {st : System}
    (h : ∀ i < st.procs.length, (st.fifos (.req i)).length < cap ∧ (st.fifos (.rsp i)).length < cap)
    (a : Action) : st.FindsRoom cap a := by
  intro i hi hfull
  obtain ⟨hreq, hrsp⟩ := h i hi
  cases a with
  | cli cmd =>
    cases cmd with
    | createDriver pid reqFd rspFd => exact hfull
    | sendTask pid timer => exact absurd hreq (Nat.not_lt.2 hfull.2)
    | getStatus pid => exact absurd hreq (Nat.not_lt.2 hfull.2)
    | getDrivers => exact absurd hreq (Nat.not_lt.2 hfull)
  | driver j => exact absurd hrsp (Nat.not_lt.2 hfull.2)
  | read j => exact hfull
  | tick ns => exact hfull

/-- A driver is asked twice before it answers. -/
def twoQuestions : List Action :=
  [.cli (.createDriver 8 3 4), .cli (.getStatus 8), .cli .getDrivers, .driver 0, .read 0]

/-- There is room for two messages. -/
theorem conserved_twoQuestions : ∃ st, runFrom (step (some 2)) init twoQuestions = some st ∧
    ∀ bs s, bs <+: twoQuestions → runFrom (step (some 2)) init bs = some s → s.AllConserved := by
  have hrun : runFrom (step (some 2)) init twoQuestions = some _ := rfl
  refine ⟨_, hrun, (conserved_iff hrun).2 ?_⟩
  refine ⟨findsRoom_of_lt (by decide) _, fun t ht => ?_⟩
  obtain rfl := Option.some.inj ht
  refine ⟨findsRoom_of_lt (by decide) _, fun t ht => ?_⟩
  obtain rfl := Option.some.inj ht
  refine ⟨findsRoom_of_lt (by decide) _, fun t ht => ?_⟩
  obtain rfl := Option.some.inj ht
  refine ⟨fun i hi hfull => absurd hfull.2 ?_, fun t ht => ?_⟩
  · have hlt : i < 1 := hi
    obtain rfl := Nat.lt_one_iff.1 hlt
    decide
  obtain rfl := Option.some.inj ht
  exact ⟨fun _ _ hfull => hfull, fun _ _ => trivial⟩

/-- The operator asks twice before the driver reads, and there is room for one request. -/
theorem not_conserved : ∃ st, runFrom (step (some 1)) init
    [.cli (.createDriver 9 3 4), .cli (.getStatus 9), .cli (.getStatus 9)] = some st ∧
      ¬ st.AllConserved := by
  refine ⟨_, rfl, fun h => ?_⟩
  have hlost := h 0 ⟨9, .disarmed, []⟩ rfl
  rw [conserved_iff_balance] at hlost
  exact absurd hlost (by decide)

end System

end EltexPractice.Taxi
