import EltexPractice.Foundations.Entries
import EltexPractice.Taxi.Server
import Mathlib.Data.List.Nodup

/-!
# Requests and responses of the taxi

Two FIFOs and the timer of a driver make one channel: the requests written to it are those it has
handled and those still queued, and what it has handled is what the server has printed and what is
still queued for the server (`Channel`). Each action of the system is one step of one channel, so
the `k`-th line about a driver answers the `k`-th request written to it (`request_response`).
-/

namespace EltexPractice.Taxi

/-! ## One driver -/

/-- The reply of the driver `pid` to a request it has handled. -/
def Handled.reply (pid : ℤ) (h : Handled) : IpcMsg := h.request.reply pid h.timer h.time

/-- The line the driver's timer dictated at that moment. -/
def Handled.line (pid : ℤ) (h : Handled) : Line := h.request.line pid h.timer h.time

/-- The time left then was that of an `int` of seconds. -/
def Handled.Bounded (h : Handled) : Prop := h.timer.remaining h.time ≤ 2147483647 * nsPerSec

/-- Requests written, requests queued, requests handled, replies queued and lines printed, all of
one driver. -/
structure Channel (pid : ℤ) (issued : List Request) (reqs : List IpcMsg) (handled : List Handled)
    (rsps : List IpcMsg) (lines : List Line) : Prop where
  requests : ∃ pending, issued = handled.map (·.request) ++ pending ∧ reqs = pending.map (·.msg)
  replies : ∃ printed waiting, handled = printed ++ waiting ∧ rsps = waiting.map (·.reply pid) ∧
    lines = printed.map (·.line pid)
  bounded : ∀ h ∈ handled, h.Bounded

namespace Channel

variable {pid : ℤ} {issued : List Request} {reqs : List IpcMsg} {handled : List Handled}
  {rsps : List IpcMsg} {lines : List Line}

theorem empty (pid : ℤ) : Channel pid [] [] [] [] [] :=
  ⟨⟨[], rfl, rfl⟩, ⟨[], [], rfl, rfl, rfl⟩, nofun⟩

/-- The server writes a request. -/
theorem request (h : Channel pid issued reqs handled rsps lines) (req : Request) :
    Channel pid (issued ++ [req]) (reqs ++ [req.msg]) handled rsps lines := by
  obtain ⟨pending, rfl, rfl⟩ := h.requests
  refine ⟨⟨pending ++ [req], ?_, ?_⟩, h.replies, h.bounded⟩
  · rw [List.append_assoc]
  · rw [List.map_append, List.map_singleton]

/-- The driver handles the first request in its FIFO. -/
theorem handle {msg : IpcMsg} {rest : List IpcMsg}
    (h : Channel pid issued (msg :: rest) handled rsps lines) :
    ∃ req : Request, msg = req.msg ∧ ∀ e : Handled, e.request = req → e.Bounded →
      Channel pid issued rest (handled ++ [e]) (rsps ++ [e.reply pid]) lines := by
  obtain ⟨pending, hissued, hreqs⟩ := h.requests
  obtain ⟨printed, waiting, hhandled, hrsps, hlines⟩ := h.replies
  obtain ⟨req, pending, rfl, hmsg, rfl⟩ := List.map_eq_cons_iff.1 hreqs.symm
  refine ⟨req, hmsg.symm, fun e he hbound => ⟨⟨pending, ?_, rfl⟩,
    ⟨printed, waiting ++ [e], ?_, ?_, hlines⟩, fun e' he' => ?_⟩⟩
  · rw [hissued, List.map_append, List.map_singleton, he, List.append_assoc]
    rfl
  · rw [hhandled, List.append_assoc]
  · rw [hrsps, List.map_append, List.map_singleton]
  · rcases List.mem_append.1 he' with he' | he'
    · exact h.bounded e' he'
    · rw [List.mem_singleton.1 he']
      exact hbound

/-- The server reads the first reply and prints its line. -/
theorem print {msg : IpcMsg} {rest : List IpcMsg}
    (h : Channel pid issued reqs handled (msg :: rest) lines) :
    ∃ l, printReply pid msg = some l ∧ l.pid = pid ∧
      Channel pid issued reqs handled rest (lines ++ [l]) := by
  obtain ⟨printed, waiting, hhandled, hrsps, hlines⟩ := h.replies
  obtain ⟨e, waiting, rfl, hmsg, rfl⟩ := List.map_eq_cons_iff.1 hrsps.symm
  have hbound : e.Bounded := h.bounded e (by rw [hhandled]; simp)
  refine ⟨e.line pid, ?_, ?_, h.requests, ⟨printed ++ [e], waiting, ?_, rfl, ?_⟩, h.bounded⟩
  · rw [← hmsg]
    exact printReply_reply pid pid hbound e.request
  · unfold Handled.line Request.line
    split
    · rfl
    · cases e.request <;> rfl
  · rw [hhandled, List.append_assoc]
    rfl
  · rw [hlines, List.map_append, List.map_singleton]

/-- The `k`-th line answers the `k`-th request. -/
theorem line (h : Channel pid issued reqs handled rsps lines) {k : ℕ} {l : Line}
    (hl : lines[k]? = some l) : ∃ e, handled[k]? = some e ∧ issued[k]? = some e.request ∧
      l = e.line pid := by
  obtain ⟨pending, hissued, -⟩ := h.requests
  obtain ⟨printed, waiting, hhandled, -, hlines⟩ := h.replies
  rw [hlines, List.getElem?_map] at hl
  obtain ⟨e, he, rfl⟩ := Option.map_eq_some_iff.1 hl
  have hlt := (List.getElem?_eq_some_iff.1 he).1
  have hk : handled[k]? = some e := by rw [hhandled, List.getElem?_append_left hlt, he]
  have hlt' := (List.getElem?_eq_some_iff.1 hk).1
  refine ⟨e, hk, ?_, rfl⟩
  rw [hissued, List.getElem?_append_left (by rwa [List.length_map]), List.getElem?_map, hk,
    Option.map_some]

theorem length_le (h : Channel pid issued reqs handled rsps lines) :
    lines.length ≤ handled.length ∧ handled.length ≤ issued.length := by
  obtain ⟨pending, hissued, -⟩ := h.requests
  obtain ⟨printed, waiting, hhandled, -, hlines⟩ := h.replies
  rw [hissued, hlines, hhandled]
  simp

end Channel

/-- Whether there is a process with a pid depends on the pids alone. -/
theorem exists_pid_congr {procs procs' : List Driver}
    (hpids : procs'.map (·.pid) = procs.map (·.pid)) {pid : ℤ} (h : ∃ p ∈ procs, p.pid = pid) :
    ∃ p ∈ procs', p.pid = pid := by
  have hmem := List.mem_map.2 h
  rw [← hpids] at hmem
  exact List.mem_map.1 hmem

/-! ## All drivers -/

/-- The line in an output. -/
def Output.line? : Output → Option Line
  | line l => some l
  | _ => none

namespace System

/-- The lines printed about drivers. -/
def lines (st : System) : List Line := st.output.filterMap (·.line?)

/-- The lines printed with the pid `pid`. -/
def linesFor (st : System) (pid : ℤ) : List Line := st.lines.filter (·.pid = pid)

/-- The table entry of the driver `i`, with its FIFOs behind its descriptors. -/
structure Entry (st : System) (i : ℕ) (p : Driver) (drv : DriverInfo) : Prop where
  slot : st.drivers.toList[i]? = some drv
  pid : drv.pid = p.pid
  req : st.fds drv.reqFd = some (.req i)
  rsp : st.fds drv.rspFd = some (.rsp i)

/-- The slots of the table, the descriptors in them and the pids of the processes. -/
structure Wiring (st : System) : Prop where
  length : st.drivers.count = st.procs.length
  entries : ∀ i p, st.procs[i]? = some p → ∃ drv, st.Entry i p drv
  pids : (st.procs.map (·.pid)).Nodup

/-- A process has its driver's entry as long as table, descriptors and pids stay. -/
theorem Entry.congr {st st' : System} {i : ℕ} {p p' : Driver} {drv : DriverInfo}
    (h : st.Entry i p drv) (hdrivers : st'.drivers = st.drivers) (hfds : st'.fds = st.fds)
    (hpid : p'.pid = p.pid) : st'.Entry i p' drv := by
  refine ⟨?_, h.pid.trans hpid.symm, ?_, ?_⟩
  · rw [hdrivers]
    exact h.slot
  · rw [hfds]
    exact h.req
  · rw [hfds]
    exact h.rsp

namespace Wiring

variable {st : System}

theorem congr {st' : System} (h : st.Wiring) (hdrivers : st'.drivers = st.drivers)
    (hfds : st'.fds = st.fds) (hpids : st'.procs.map (·.pid) = st.procs.map (·.pid)) :
    st'.Wiring := by
  refine ⟨?_, fun i p hp => ?_, ?_⟩
  · have hlen := congrArg List.length hpids
    rw [List.length_map, List.length_map] at hlen
    rw [hdrivers, h.length, hlen]
  · have hpid : (st.procs.map (·.pid))[i]? = some p.pid := by
      rw [← hpids, List.getElem?_map, hp]
      rfl
    rw [List.getElem?_map] at hpid
    obtain ⟨q, hq, hpq⟩ := Option.map_eq_some_iff.1 hpid
    obtain ⟨drv, hdrv⟩ := h.entries i q hq
    exact ⟨drv, hdrv.congr hdrivers hfds hpq.symm⟩
  · rw [hpids]
    exact h.pids

/-- Every slot in use belongs to a driver. -/
theorem entry_of_slot (h : st.Wiring) {i : ℕ} {drv : DriverInfo}
    (hslot : st.drivers.toList[i]? = some drv) : ∃ p, st.procs[i]? = some p ∧ st.Entry i p drv := by
  have hlt := (List.getElem?_eq_some_iff.1 hslot).1
  rw [Table.length_toList, h.length] at hlt
  obtain ⟨drv', hdrv'⟩ := h.entries i _ (List.getElem?_eq_getElem hlt)
  obtain rfl := Option.some.inj (hslot.symm.trans hdrv'.slot)
  exact ⟨_, List.getElem?_eq_getElem hlt, hdrv'⟩

/-- A pid belongs to one driver. -/
theorem index_unique (h : st.Wiring) {i j : ℕ} {p q : Driver} (hi : st.procs[i]? = some p)
    (hj : st.procs[j]? = some q) (hpid : p.pid = q.pid) : i = j := by
  have hpi : (st.procs.map (·.pid))[i]? = some p.pid := by rw [List.getElem?_map, hi]; rfl
  have hpj : (st.procs.map (·.pid))[j]? = some p.pid := by rw [List.getElem?_map, hj, hpid]; rfl
  have hlt := (List.getElem?_eq_some_iff.1 hpi).1
  exact (List.getElem?_inj hlt h.pids).1 (hpi.trans hpj.symm)

theorem findDriver (h : st.Wiring) {pid : ℤ} {drv : DriverInfo}
    (hfind : st.findDriver pid = some drv) :
    ∃ i p, st.procs[i]? = some p ∧ st.Entry i p drv ∧ p.pid = pid := by
  obtain ⟨i, hi⟩ := List.mem_iff_getElem?.1 (List.mem_of_find?_eq_some hfind)
  obtain ⟨p, hp, hdrv⟩ := h.entry_of_slot hi
  have hpid : drv.pid = pid := by simpa using List.find?_some hfind
  exact ⟨i, p, hp, hdrv, hdrv.pid.symm.trans hpid⟩

/-- A driver that is not found has no process. -/
theorem findDriver_none (h : st.Wiring) {pid : ℤ} (hfind : st.findDriver pid = none) {i : ℕ}
    {p : Driver} (hp : st.procs[i]? = some p) : p.pid ≠ pid := by
  obtain ⟨drv, hdrv⟩ := h.entries i p hp
  have hne := List.find?_eq_none.1 hfind drv (List.mem_of_getElem? hdrv.slot)
  rw [← hdrv.pid]
  simpa using hne

/-- The loop over the table finds the pid of the driver behind a descriptor. -/
theorem foldl_pid (h : st.Wiring) {i : ℕ} {p : Driver} {drv : DriverInfo}
    (hp : st.procs[i]? = some p) (hdrv : st.Entry i p drv) :
    st.drivers.toList.foldl
      (fun pid drv' => if drv'.rspFd = drv.rspFd then drv'.pid else pid) (-1) = p.pid := by
  have hsame : ∀ drv' ∈ st.drivers.toList, drv'.rspFd = drv.rspFd → drv'.pid = p.pid := by
    intro drv' hmem hfd
    obtain ⟨j, hj⟩ := List.mem_iff_getElem?.1 hmem
    obtain ⟨q, hq, hdrv'⟩ := h.entry_of_slot hj
    have hrsp := hdrv'.rsp
    rw [hfd, hdrv.rsp] at hrsp
    obtain rfl : i = j := by simpa using hrsp
    rw [hdrv'.pid, Option.some.inj (hq.symm.trans hp)]
  have hloop : ∀ (l : List DriverInfo) (x : ℤ),
      (∀ drv' ∈ l, drv'.rspFd = drv.rspFd → drv'.pid = p.pid) → (x = p.pid ∨ drv ∈ l) →
      l.foldl (fun pid drv' => if drv'.rspFd = drv.rspFd then drv'.pid else pid) x = p.pid := by
    intro l
    induction l with
    | nil => exact fun x _ hx => hx.resolve_right (List.not_mem_nil)
    | cons drv' l ih =>
      intro x hall hx
      rw [List.foldl_cons]
      refine ih _ (fun d hd => hall d (List.mem_cons_of_mem _ hd)) ?_
      split
      · rename_i hfd
        exact Or.inl (hall drv' List.mem_cons_self hfd)
      · rename_i hfd
        rcases hx with hx | hx
        · exact Or.inl hx
        · rcases List.mem_cons.1 hx with rfl | hx
          · exact absurd rfl hfd
          · exact Or.inr hx
  exact hloop _ _ hsame (Or.inr (List.mem_of_getElem? hdrv.slot))

/-- A new driver: its descriptors are new, and its pid is. -/
theorem handleCreateDriver (h : st.Wiring) {pid : ℤ} {reqFd rspFd : ℕ}
    (hpid : ∀ p ∈ st.procs, p.pid ≠ pid) (hne : reqFd ≠ rspFd) (hreq : st.fds reqFd = none)
    (hrsp : st.fds rspFd = none) : (st.handleCreateDriver pid reqFd rspFd).Wiring := by
  unfold System.handleCreateDriver
  split
  · rename_i hroom
    set st' : System := { st with
      drivers := st.drivers.push ⟨pid, reqFd, rspFd⟩ hroom
      fds := Function.update (Function.update st.fds reqFd (some (.req st.drivers.count))) rspFd
        (some (.rsp st.drivers.count))
      masterSet := rspFd :: st.masterSet
      maxFd := if rspFd > st.maxFd then rspFd else st.maxFd
      procs := st.procs ++ [⟨pid, .disarmed, []⟩]
      output := st.output ++ [.created pid] } with hst'
    have htable : st'.drivers.toList = st.drivers.toList ++ [⟨pid, reqFd, rspFd⟩] :=
      Table.toList_push ..
    refine ⟨?_, fun i p hp => ?_, ?_⟩
    · simp [hst', Table.push, h.length]
    · rcases cases_of_getElem?_concat hp with hp | ⟨rfl, rfl⟩
      · obtain ⟨drv, hdrv⟩ := h.entries i p hp
        have hother : ∀ fd f, st.fds fd = some f → st'.fds fd = some f := fun fd f hfd => by
          have h₁ : fd ≠ reqFd := fun heq => by rw [heq, hreq] at hfd; cases hfd
          have h₂ : fd ≠ rspFd := fun heq => by rw [heq, hrsp] at hfd; cases hfd
          simp only [hst', Function.update_of_ne h₂, Function.update_of_ne h₁, hfd]
        refine ⟨drv, ?_, hdrv.pid, hother _ _ hdrv.req, hother _ _ hdrv.rsp⟩
        rw [htable, List.getElem?_append_left (List.getElem?_eq_some_iff.1 hdrv.slot).1]
        exact hdrv.slot
      · refine ⟨⟨pid, reqFd, rspFd⟩, ?_, rfl, ?_, ?_⟩
        · rw [htable, ← h.length, ← Table.length_toList, List.getElem?_concat_length]
        · simp [hst', hne, h.length]
        · simp [hst', h.length]
    · rw [hst']
      simp only [List.map_append, List.map_singleton]
      refine List.nodup_append.2 ⟨h.pids, by simp, fun a ha b hb => ?_⟩
      obtain ⟨p, hp, rfl⟩ := List.mem_map.1 ha
      rw [List.mem_singleton.1 hb]
      exact hpid p hp
  · exact h

end Wiring

/-- The channel of the driver `i`. -/
def Linked (st : System) (i : ℕ) (p : Driver) : Prop :=
  Channel p.pid (st.issued i) (st.fifos (.req i)) p.handled (st.fifos (.rsp i)) (st.linesFor p.pid)

/-- What holds between two actions. -/
structure Inv (st : System) : Prop where
  length : st.drivers.count = st.procs.length
  entries : ∀ i p, st.procs[i]? = some p → ∃ drv, st.Entry i p drv
  linked : ∀ i p, st.procs[i]? = some p → st.Linked i p
  pids : (st.procs.map (·.pid)).Nodup
  timers : ∀ p ∈ st.procs, p.tfd.remaining st.now ≤ 2147483647 * nsPerSec
  fresh : ∀ i, st.procs.length ≤ i →
    st.issued i = [] ∧ st.fifos (.req i) = [] ∧ st.fifos (.rsp i) = []
  known : ∀ l ∈ st.lines, ∃ p ∈ st.procs, p.pid = l.pid

theorem inv_init : init.Inv where
  length := rfl
  entries := nofun
  linked := nofun
  pids := List.nodup_nil
  timers := nofun
  fresh _ _ := ⟨rfl, rfl, rfl⟩
  known := nofun

theorem lines_print (st : System) (out : Output) :
    (st.print out).lines = st.lines ++ out.line?.toList := by
  rw [lines, print, List.filterMap_append, lines]
  cases out <;> rfl

@[simp] theorem writeFifo_none (st : System) (f : Fifo) (msg : IpcMsg) :
    st.writeFifo none f msg =
      { st with fifos := Function.update st.fifos f (st.fifos f ++ [msg]) } :=
  if_pos nofun

namespace Inv

variable {st : System}

theorem wiring (h : st.Inv) : st.Wiring := ⟨h.length, h.entries, h.pids⟩

/-- Printing something that is no line about a driver. -/
theorem print (h : st.Inv) {out : Output} (hout : out.line? = none) : (st.print out).Inv := by
  have hlines : (st.print out).lines = st.lines := by
    rw [lines_print, hout]
    exact List.append_nil _
  have hfor : ∀ pid, (st.print out).linesFor pid = st.linesFor pid := fun pid => by
    rw [linesFor, hlines, linesFor]
  refine { h with linked := fun i p hp => ?_, known := ?_, entries := fun i p hp => ?_ }
  · obtain ⟨drv, hdrv⟩ := h.entries i p hp
    exact ⟨drv, hdrv.slot, hdrv.pid, hdrv.req, hdrv.rsp⟩
  · rw [Linked, hfor]
    exact h.linked i p hp
  · rw [hlines]
    exact h.known

/-! ## The commands -/

/-- A request is written to the driver `i`. -/
theorem writeRequest (h : st.Inv) {i : ℕ} {p : Driver} {drv : DriverInfo}
    (hp : st.procs[i]? = some p) (hdrv : st.Entry i p drv) (req : Request) :
    (st.writeRequest none drv.reqFd req).Inv := by
  have hlt := (List.getElem?_eq_some_iff.1 hp).1
  rw [System.writeRequest, hdrv.req]
  simp only [writeFifo_none]
  refine { h with entries := fun j q hq => ?_, linked := fun j q hq => ?_,
                  fresh := fun j hj => ?_ }
  · obtain ⟨drv', hdrv'⟩ := h.entries j q hq
    exact ⟨drv', hdrv'.slot, hdrv'.pid, hdrv'.req, hdrv'.rsp⟩
  · have hold := h.linked j q hq
    rcases eq_or_ne j i with rfl | hne
    · have hnew := Channel.request hold req
      simpa [Linked, linesFor, lines] using hnew
    · simpa [Linked, linesFor, lines, hne] using hold
  · have hne : j ≠ i := fun heq => absurd hj (Nat.not_le.2 (heq ▸ hlt))
    have hold := h.fresh j hj
    simpa [hne] using hold

theorem handleSendTask (h : st.Inv) (pid : ℤ) (timer : Int32) :
    (st.handleSendTask none pid timer).Inv := by
  unfold System.handleSendTask
  split
  · exact h.print rfl
  · rename_i drv hfind
    obtain ⟨i, p, hp, hdrv, -⟩ := h.wiring.findDriver hfind
    exact h.writeRequest hp hdrv _

theorem handleGetStatus (h : st.Inv) (pid : ℤ) : (st.handleGetStatus none pid).Inv := by
  unfold System.handleGetStatus
  split
  · exact h.print rfl
  · rename_i drv hfind
    obtain ⟨i, p, hp, hdrv, -⟩ := h.wiring.findDriver hfind
    exact h.writeRequest hp hdrv _

theorem drivers_writeRequest (cap : Option ℕ) (st : System) (fd : ℕ) (req : Request) :
    (st.writeRequest cap fd req).drivers = st.drivers := by
  unfold System.writeRequest
  split
  · unfold writeFifo
    split <;> rfl
  · rfl

/-- The loop of `handle_get_drivers` over a part of the table. -/
theorem writeRequests (h : st.Inv) {drvs : List DriverInfo}
    (hdrvs : ∀ drv ∈ drvs, drv ∈ st.drivers.toList) :
    (drvs.foldl (fun st drv => st.writeRequest none drv.reqFd .status) st).Inv := by
  induction drvs generalizing st with
  | nil => exact h
  | cons drv drvs ih =>
    obtain ⟨i, hi⟩ := List.mem_iff_getElem?.1 (hdrvs drv List.mem_cons_self)
    obtain ⟨p, hp, hdrv⟩ := h.wiring.entry_of_slot hi
    refine ih (h.writeRequest hp hdrv .status) fun drv' hdrv' => ?_
    rw [drivers_writeRequest]
    exact hdrvs drv' (List.mem_cons_of_mem _ hdrv')

theorem handleGetDrivers (h : st.Inv) : (st.handleGetDrivers none).Inv := by
  unfold System.handleGetDrivers
  split
  · exact h.print rfl
  · exact h.writeRequests fun _ hdrv => hdrv

/-- A new driver: its FIFOs are new, and its pid is. -/
theorem handleCreateDriver (h : st.Inv) {pid : ℤ} {reqFd rspFd : ℕ}
    (hpid : ∀ p ∈ st.procs, p.pid ≠ pid) (hne : reqFd ≠ rspFd) (hreq : st.fds reqFd = none)
    (hrsp : st.fds rspFd = none) : (st.handleCreateDriver pid reqFd rspFd).Inv := by
  have hwiring := h.wiring.handleCreateDriver hpid hne hreq hrsp
  unfold System.handleCreateDriver at hwiring ⊢
  split
  · rename_i hroom
    rw [dif_pos hroom] at hwiring
    set st' : System := { st with
      drivers := st.drivers.push ⟨pid, reqFd, rspFd⟩ hroom
      fds := Function.update (Function.update st.fds reqFd (some (.req st.drivers.count))) rspFd
        (some (.rsp st.drivers.count))
      masterSet := rspFd :: st.masterSet
      maxFd := if rspFd > st.maxFd then rspFd else st.maxFd
      procs := st.procs ++ [⟨pid, .disarmed, []⟩]
      output := st.output ++ [.created pid] } with hst'
    have hlines : st'.lines = st.lines := by simp [lines, hst', Output.line?]
    refine ⟨hwiring.length, hwiring.entries, fun i p hp => ?_, hwiring.pids, fun p hp => ?_,
      fun i hi => ?_, ?_⟩
    · rcases cases_of_getElem?_concat hp with hp | ⟨rfl, rfl⟩
      · have hold := h.linked i p hp
        rw [Linked, linesFor] at hold ⊢
        rw [hlines]
        exact hold
      · obtain ⟨hissued, hreqs, hrsps⟩ := h.fresh st.procs.length le_rfl
        have hnone : st.lines.filter (·.pid = pid) = [] := by
          refine List.filter_eq_nil_iff.2 fun l hl => ?_
          obtain ⟨p, hp, heq⟩ := h.known l hl
          simpa [heq] using hpid p hp
        rw [Linked, linesFor, hlines, hnone]
        simp only [hst', hissued, hreqs, hrsps]
        exact Channel.empty pid
    · rcases List.mem_append.1 hp with hp | hp
      · exact h.timers p hp
      · rw [List.mem_singleton.1 hp]
        exact Nat.zero_le _
    · refine h.fresh i (Nat.le_of_succ_le ?_)
      simpa [hst'] using hi
    · rw [hlines]
      intro l hl
      obtain ⟨p, hp, heq⟩ := h.known l hl
      exact ⟨p, List.mem_append_left _ hp, heq⟩
  · exact h

/-! ## The drivers and the replies -/

/-- The timer of a driver that has handled a request. -/
theorem remaining_serve_le {tfd : Timer} {now : ℕ}
    (h : tfd.remaining now ≤ 2147483647 * nsPerSec) (req : Request) :
    (req.serve tfd now).remaining now ≤ 2147483647 * nsPerSec := by
  cases req with
  | task timer =>
    rw [Request.serve]
    split
    · exact h
    · rename_i hidle
      rw [Timer.remaining_settime (Nat.le_zero.1 (Nat.not_lt.1 hidle)) _ le_rfl,
        Nat.add_sub_cancel_left]
      have hint := timer.toInt_lt
      exact Nat.mul_le_mul_right _ (by omega)
  | status => exact h

theorem driverStep (h : st.Inv) {i : ℕ} {st' : System} (hs : st.driverStep none i = some st') :
    st'.Inv := by
  unfold System.driverStep at hs
  split at hs
  · rename_i p msg rest hp hfifo
    have hlt := (List.getElem?_eq_some_iff.1 hp).1
    have hmem := List.mem_of_getElem? hp
    have hlinked := h.linked i p hp
    rw [Linked, hfifo] at hlinked
    obtain ⟨req, rfl, hchannel⟩ := hlinked.handle
    simp only [Driver.turn_request, writeFifo_none] at hs
    obtain rfl := Option.some.inj hs
    have hnew := hchannel ⟨req, p.tfd, st.now⟩ rfl (h.timers p hmem)
    have hprocs : ∀ {j q}, (st.procs.set i ⟨p.pid, req.serve p.tfd st.now,
        p.handled ++ [⟨req, p.tfd, st.now⟩]⟩)[j]? = some q →
        (j = i ∧ q = ⟨p.pid, req.serve p.tfd st.now, p.handled ++ [⟨req, p.tfd, st.now⟩]⟩) ∨
        (j ≠ i ∧ st.procs[j]? = some q) := cases_of_getElem?_set
    have hpids : (st.procs.set i ⟨p.pid, req.serve p.tfd st.now,
        p.handled ++ [⟨req, p.tfd, st.now⟩]⟩).map (·.pid) = st.procs.map (·.pid) :=
      map_set_of_eq hp rfl
    have hwiring : Wiring { st with
        procs := st.procs.set i ⟨p.pid, req.serve p.tfd st.now,
          p.handled ++ [⟨req, p.tfd, st.now⟩]⟩ } := h.wiring.congr rfl rfl hpids
    refine ⟨hwiring.length, fun j q hq => ?_, fun j q hq => ?_, hwiring.pids, fun q hq => ?_,
      fun j hj => ?_, fun l hl => exists_pid_congr hpids (h.known l hl)⟩
    · obtain ⟨drv, hdrv⟩ := hwiring.entries j q hq
      exact ⟨drv, hdrv.congr rfl rfl rfl⟩
    · rcases hprocs hq with ⟨rfl, rfl⟩ | ⟨hne, hq⟩
      · simpa [Linked, linesFor, lines, Handled.reply] using hnew
      · have hold := h.linked j q hq
        simpa [Linked, linesFor, lines, hne] using hold
    · rcases List.mem_or_eq_of_mem_set hq with hq | rfl
      · exact h.timers q hq
      · exact remaining_serve_le (h.timers p hmem) req
    · rw [List.length_set] at hj
      have hne : j ≠ i := fun heq => absurd hj (Nat.not_le.2 (heq ▸ hlt))
      simpa [hne] using h.fresh j hj
  · cases hs

theorem processDriverMessage (h : st.Inv) {i : ℕ} {p : Driver} {drv : DriverInfo}
    (hp : st.procs[i]? = some p) (hdrv : st.Entry i p drv) :
    (st.processDriverMessage drv.rspFd).Inv := by
  have hmem := List.mem_of_getElem? hp
  have hlt := (List.getElem?_eq_some_iff.1 hp).1
  unfold System.processDriverMessage
  rw [hdrv.rsp]
  simp only [h.wiring.foldl_pid hp hdrv]
  split
  · exact h
  · rename_i msg rest hfifo
    have hlinked := h.linked i p hp
    rw [Linked, hfifo] at hlinked
    obtain ⟨l, hprint, hpid, hchannel⟩ := hlinked.print
    simp only [hprint]
    set st' := System.print { st with fifos := Function.update st.fifos (.rsp i) rest } (.line l)
      with hst'
    have hlines : st'.lines = st.lines ++ [l] := lines_print _ _
    have hfor : ∀ pid, st'.linesFor pid = st.linesFor pid ++ if l.pid = pid then [l] else [] :=
      fun pid => by
        rw [linesFor, hlines, List.filter_append, linesFor, List.filter_singleton]
        simp
    refine { h with entries := fun j q hq => ?_, linked := fun j q hq => ?_,
                    fresh := fun j hj => ?_, known := ?_ }
    · obtain ⟨drv', hdrv'⟩ := h.entries j q hq
      exact ⟨drv', hdrv'.slot, hdrv'.pid, hdrv'.req, hdrv'.rsp⟩
    · rw [Linked, hfor]
      rcases eq_or_ne j i with rfl | hne
      · obtain rfl := Option.some.inj (hq.symm.trans hp)
        rw [if_pos hpid]
        simpa [hst', System.print] using hchannel
      · have hother : l.pid ≠ q.pid := fun heq =>
          hne (h.wiring.index_unique hq hp (heq.symm.trans hpid))
        rw [if_neg hother, List.append_nil]
        have hold := h.linked j q hq
        simpa [hst', System.print, Linked, hne] using hold
    · have hne : j ≠ i := fun heq => absurd hj (Nat.not_le.2 (heq ▸ hlt))
      simpa [hst', System.print, hne] using h.fresh j hj
    · rw [hlines]
      intro l' hl'
      rcases List.mem_append.1 hl' with hl' | hl'
      · exact h.known l' hl'
      · rw [List.mem_singleton.1 hl']
        exact ⟨p, hmem, hpid.symm⟩

/-! ## Runs -/

theorem tick (h : st.Inv) (ns : ℕ) : { st with now := st.now + ns : System }.Inv := by
  refine { h with entries := fun i p hp => ?_, timers := fun p hp => ?_ }
  · obtain ⟨drv, hdrv⟩ := h.entries i p hp
    exact ⟨drv, hdrv.slot, hdrv.pid, hdrv.req, hdrv.rsp⟩
  · exact (Timer.remaining_le (Nat.le_add_right _ _)).trans (h.timers p hp)

/-- Every action keeps the invariant. -/
theorem step (h : st.Inv) {a : Action} {st' : System} (hs : System.step none st a = some st') :
    st'.Inv := by
  cases a with
  | cli cmd =>
    rw [System.step] at hs
    cases cmd with
    | createDriver pid reqFd rspFd =>
      rw [processCliInput] at hs
      split at hs
      · rename_i hnew
        obtain rfl := Option.some.inj hs
        obtain ⟨-, hpid, hne, -, -, hreq, hrsp⟩ := hnew
        exact h.handleCreateDriver hpid hne hreq hrsp
      · cases hs
    | sendTask pid timer =>
      obtain rfl := Option.some.inj hs
      exact h.handleSendTask pid timer
    | getStatus pid =>
      obtain rfl := Option.some.inj hs
      exact h.handleGetStatus pid
    | getDrivers =>
      obtain rfl := Option.some.inj hs
      exact h.handleGetDrivers
  | driver i => exact h.driverStep hs
  | read i =>
    rw [System.step] at hs
    split at hs
    · rename_i drv hslot
      split at hs
      · obtain rfl := Option.some.inj hs
        obtain ⟨p, hp, hdrv⟩ := h.wiring.entry_of_slot hslot
        exact h.processDriverMessage hp hdrv
      · cases hs
    · cases hs
  | tick ns =>
    obtain rfl := Option.some.inj hs
    exact h.tick ns

end Inv

theorem inv_of_run {as : List Action} {st : System}
    (h : runFrom (System.step none) init as = some st) : st.Inv :=
  runFrom_invariant (fun _ _ _ h hs => h.step hs) inv_init h

/-- The lines about the driver `i` answer the requests written to it, one after the other, each with
what the timer dictated when the driver handled the request. -/
structure Answered (st : System) (i : ℕ) (p : Driver) : Prop where
  answers : ∀ (k : ℕ) (l : Line), (st.linesFor p.pid)[k]? = some l → ∃ e, p.handled[k]? = some e ∧
    (st.issued i)[k]? = some e.request ∧ l = e.request.line p.pid e.timer e.time
  lines_le : (st.linesFor p.pid).length ≤ p.handled.length
  handled_le : p.handled.length ≤ (st.issued i).length

/-- **Requests and responses.** After every run every line belongs to one driver, and the lines
about a driver answer its requests in their order. -/
theorem request_response {as : List Action} {st : System}
    (h : runFrom (step none) init as = some st) :
    (st.procs.map (·.pid)).Nodup ∧ (∀ l ∈ st.lines, ∃ p ∈ st.procs, p.pid = l.pid) ∧
      ∀ (i : ℕ) (p : Driver), st.procs[i]? = some p → st.Answered i p := by
  have hinv := inv_of_run h
  refine ⟨hinv.pids, hinv.known, fun i p hp => ?_⟩
  have hlinked := hinv.linked i p hp
  exact ⟨fun k l hl => Channel.line hlinked hl, hlinked.length_le.1, hlinked.length_le.2⟩

/-- Two drivers get a task and a question each, and answer in another order. -/
def taskOrder : List Action :=
  [.cli (.createDriver 7 3 4), .cli (.createDriver 8 5 6), .cli (.sendTask 7 5),
    .cli (.sendTask 8 3), .driver 1, .cli (.getStatus 7), .driver 0, .driver 0, .read 1,
    .tick 2000000000, .cli (.getStatus 8), .driver 1, .read 0, .read 1, .read 0]

theorem request_response_taskOrder : ∃ st, runFrom (step none) init taskOrder = some st ∧
    st.lines = [.accepted 8, .accepted 7, .busy 8 1, .busy 7 5] ∧
    st.issued 0 = [.task 5, .status] ∧ st.issued 1 = [.task 3, .status] ∧
    ∀ (i : ℕ) (p : Driver), st.procs[i]? = some p → st.Answered i p := by
  obtain ⟨st, h, hlines, hissued, hissued'⟩ : ∃ st, runFrom (step none) init taskOrder = some st ∧
      st.lines = [.accepted 8, .accepted 7, .busy 8 1, .busy 7 5] ∧
      st.issued 0 = [.task 5, .status] ∧ st.issued 1 = [.task 3, .status] :=
    ⟨_, rfl, rfl, rfl, rfl⟩
  exact ⟨st, h, hlines, hissued, hissued', (request_response h).2.2⟩

end System

end EltexPractice.Taxi
