import EltexPractice.Foundations.CString
import EltexPractice.Taxi.Server
import Mathlib.Algebra.Order.Group.Nat

/-!
# The console of the taxi server

`server_run` and `process_cli_input` at the level of bytes. `select` looks at the descriptor of the
standard input, which stays open; `fgets` takes a line of at most 255 bytes from the stdio buffer
and fills that buffer, when it is used up, with all bytes that have arrived. Of the drivers the
state has the messages in their FIFOs.

A server in `select` with nothing ready and a whole line in the buffer is stuck with it (`Stuck`).
That happens exactly after a refill that brings a line end behind the line `fgets` returns
(`not_stuck`).
-/

namespace EltexPractice.Taxi

open CString

/-! ## Command lines -/

/-- What `process_cli_input` makes of a line. -/
inductive CliLine
  | blank
  | createDriver
  | sendTask (pid : ℤ) (timer : Int32)
  | getStatus (pid : ℤ)
  | getDrivers
  | exit
  | usage
  | unknown
  deriving DecidableEq

/-- `sscanf(buf, "%*s %d", &pid)`, and what is left. -/
def scanPid (buf : List UInt8) : Option (ℤ × List UInt8) := do
  let (_, rest) ← scanStr buf.length buf
  scanInt rest

/-- `sscanf(buf, "%*s %d %d", &pid, &timer)`. -/
def scanTask (buf : List UInt8) : Option (ℤ × ℤ) := do
  let (pid, rest) ← scanPid buf
  let (timer, _) ← scanInt rest
  return (pid, timer)

/-- The branches of `process_cli_input`. -/
def parseCli (line : List UInt8) : CliLine :=
  let buf := cstr line
  match scanStr 63 buf with
  | none => .blank
  | some (cmd, _) =>
    if cmd = ascii "create_driver" then .createDriver
    else if cmd = ascii "send_task" then
      match scanTask buf with
      | some (pid, timer) => .sendTask pid (Int32.ofInt timer)
      | none => .usage
    else if cmd = ascii "get_status" then
      match scanPid buf with
      | some (pid, _) => .getStatus pid
      | none => .usage
    else if cmd = ascii "get_drivers" then .getDrivers
    else if cmd = ascii "exit" then .exit
    else .unknown

/-! ## The state -/

/-- A driver and the number of messages in its FIFOs. -/
structure DriverQueues where
  pid : ℤ
  requests : ℕ
  replies : ℕ

/-- Where `server_run` is; `ready` are the drivers `select` has found readable. -/
inductive ServerPc
  | select
  /-- In `fgets`, with the bytes it has put into `buf`. -/
  | fgets (line : List UInt8) (ready : List ℕ)
  /-- In the loop over the drivers. -/
  | loop (ready : List ℕ)
  | exited

structure Console where
  /-- The bytes that have arrived and are not read. -/
  stdin : List UInt8
  /-- The rest of the stdio buffer. -/
  stdio : List UInt8
  pc : ServerPc
  drivers : List DriverQueues

namespace Console

def init : Console := ⟨[], [], .select, []⟩

/-- The drivers with a reply in their FIFO. -/
def ready (s : Console) : List ℕ :=
  (List.range s.drivers.length).filter fun i => (s.drivers[i]?.map (·.replies)).getD 0 ≠ 0

/-- Another request for the first driver with the pid. -/
def request (pid : ℤ) : List DriverQueues → List DriverQueues
  | [] => []
  | d :: ds => if d.pid = pid then { d with requests := d.requests + 1 } :: ds
    else d :: request pid ds

/-- What a line does to the drivers; `fork` is what `fork` returns. The server ends on `exit`. -/
def handle (drivers : List DriverQueues) (fork : ℤ) : CliLine → Option (List DriverQueues)
  | .createDriver =>
    if maxDrivers ≤ drivers.length ∨ fork < 0 then some drivers
    else some (drivers ++ [⟨fork, 0, 0⟩])
  | .sendTask pid _ | .getStatus pid => some (request pid drivers)
  | .getDrivers => some (drivers.map fun d => { d with requests := d.requests + 1 })
  | .exit => none
  | .blank | .usage | .unknown => some drivers

/-- `fgets` goes on with the bytes of the buffer: what it has then, and what is left behind. -/
def take (line stdio : List UInt8) : List UInt8 × List UInt8 :=
  let n := min (255 - line.length) ((stdio.takeWhile (· != 10)).length + 1)
  (line ++ stdio.take n, stdio.drop n)

/-- `fgets` returns: the buffer is full, or the line has ended. -/
def Returns (line : List UInt8) : Prop := 255 ≤ line.length ∨ line.getLast? = some 10

instance (line : List UInt8) : Decidable (Returns line) := inferInstanceAs (Decidable (_ ∨ _))

inductive Action
  /-- Bytes arrive. -/
  | arrive (bytes : List UInt8)
  /-- A driver answers a request. -/
  | driver (i : ℕ)
  /-- `select` returns. -/
  | select
  /-- `fgets` fills the stdio buffer. -/
  | refill
  /-- `fgets` returns, and the line is handled. -/
  | line (fork : ℤ)
  /-- The loop over the drivers goes on, or ends. -/
  | next

/-- The driver `i` answers a request. -/
def answer (drivers : List DriverQueues) (i : ℕ) : List DriverQueues :=
  drivers.modify i fun d => { d with requests := d.requests - 1, replies := d.replies + 1 }

/-- `process_driver_message` reads a reply of the driver `i`, if there is one. -/
def readReply (drivers : List DriverQueues) (i : ℕ) : List DriverQueues :=
  drivers.modify i fun d => { d with replies := d.replies - 1 }

/-- One action; the last four are those of the server. -/
def step (s : Console) : Action → Option Console
  | .arrive bytes => some { s with stdin := s.stdin ++ bytes }
  | .driver i =>
    if ∃ d ∈ s.drivers[i]?, 0 < d.requests then some { s with drivers := answer s.drivers i }
    else none
  | .select =>
    match s.pc with
    | .select =>
      if s.stdin ≠ [] then some { s with pc := .fgets [] s.ready }
      else if s.ready ≠ [] then some { s with pc := .loop s.ready }
      else none
    | _ => none
  | .refill =>
    match s.pc with
    | .fgets line ready =>
      let (line, _) := take line s.stdio
      if ¬ Returns line ∧ s.stdin ≠ [] then
        some { s with stdin := [], stdio := s.stdin, pc := .fgets line ready }
      else none
    | _ => none
  | .line fork =>
    match s.pc with
    | .fgets line ready =>
      let (line, rest) := take line s.stdio
      if Returns line then
        match handle s.drivers fork (parseCli line) with
        | some drivers => some { s with stdio := rest, pc := .loop ready, drivers }
        | none => some { s with stdio := rest, pc := .exited }
      else none
    | _ => none
  | .next =>
    match s.pc with
    | .loop [] => some { s with pc := .select }
    | .loop (i :: ready) => some { s with pc := .loop ready, drivers := readReply s.drivers i }
    | _ => none

/-- The server waits in `select` with nothing ready, and a line is in the stdio buffer. -/
structure Stuck (s : Console) : Prop where
  pc : s.pc = .select
  stdin : s.stdin = []
  replies : ∀ d ∈ s.drivers, d.replies = 0
  line : 10 ∈ s.stdio

/-- A step of the server, in which nothing arrives and no driver answers. -/
def Action.IsServer : Action → Prop
  | .arrive _ | .driver _ => False
  | _ => True

/-- A refill brings no line end behind the line `fgets` returns, or that line is `exit`. -/
def Meets (s : Console) : Action → Prop
  | .refill => ∀ line ready, s.pc = .fgets line ready →
    10 ∉ (take (take line s.stdio).1 s.stdin).2 ∨
      parseCli (take (take line s.stdio).1 s.stdin).1 = .exit
  | _ => True

/-! ## Runs that meet the condition -/

/-- Outside `fgets` no line is in the buffer, and inside `fgets` none is behind the next one. -/
def Calm (s : Console) : Prop :=
  match s.pc with
  | .fgets line _ => 10 ∉ (take line s.stdio).2 ∨ parseCli (take line s.stdio).1 = .exit
  | .exited => True
  | _ => 10 ∉ s.stdio

/-- `exit` is the one line that ends the server. -/
theorem handle_eq_none {drivers : List DriverQueues} {fork : ℤ} {cli : CliLine} :
    handle drivers fork cli = none ↔ cli = .exit := by
  cases cli with
  | createDriver =>
    rw [handle]
    split <;> simp
  | _ => simp [handle]

theorem Calm.step {s s' : Console} {a : Action} (h : s.Calm) (hmeet : s.Meets a)
    (hs : s.step a = some s') : s'.Calm := by
  cases a with
  | arrive bytes =>
    obtain rfl := Option.some.inj hs
    exact h
  | driver i =>
    rw [Console.step] at hs
    split at hs
    · obtain rfl := Option.some.inj hs
      exact h
    · cases hs
  | select =>
    rw [Console.step] at hs
    cases hpc : s.pc with
    | select =>
      rw [hpc] at hs
      rw [Calm, hpc] at h
      dsimp only at hs h
      split at hs
      · obtain rfl := Option.some.inj hs
        exact Or.inl fun hmem => h (List.mem_of_mem_drop hmem)
      · split at hs
        · obtain rfl := Option.some.inj hs
          exact h
        · cases hs
    | _ =>
      rw [hpc] at hs
      cases hs
  | refill =>
    rw [Console.step] at hs
    cases hpc : s.pc with
    | fgets line ready =>
      rw [hpc] at hs
      dsimp only at hs
      split at hs
      · obtain rfl := Option.some.inj hs
        exact hmeet line ready hpc
      · cases hs
    | _ =>
      rw [hpc] at hs
      cases hs
  | line fork =>
    rw [Console.step] at hs
    cases hpc : s.pc with
    | fgets line ready =>
      rw [hpc] at hs
      rw [Calm, hpc] at h
      dsimp only at hs h
      split at hs
      · cases hhandle : handle s.drivers fork (parseCli (take line s.stdio).1) with
        | some drivers =>
          rw [hhandle] at hs
          obtain rfl := Option.some.inj hs
          refine h.resolve_right fun hexit => ?_
          rw [handle_eq_none.2 hexit] at hhandle
          cases hhandle
        | none =>
          rw [hhandle] at hs
          obtain rfl := Option.some.inj hs
          trivial
      · cases hs
    | _ =>
      rw [hpc] at hs
      cases hs
  | next =>
    rw [Console.step] at hs
    cases hpc : s.pc with
    | loop ready =>
      rw [hpc] at hs
      rw [Calm, hpc] at h
      cases ready with
      | nil =>
        obtain rfl := Option.some.inj hs
        exact h
      | cons i ready =>
        obtain rfl := Option.some.inj hs
        exact h
    | _ =>
      rw [hpc] at hs
      cases hs

theorem Calm.free {s : Console} (h : s.Calm) : ¬ s.Stuck := by
  intro hstuck
  rw [Calm, hstuck.pc] at h
  exact h hstuck.line

/-! ## Refills that do not meet it -/

/-- What is left behind means that `fgets` returns. -/
theorem returns_of_left {line stdio : List UInt8} (h : 10 ∈ (take line stdio).2) :
    Returns (take line stdio).1 := by
  have hlong : min (255 - line.length) ((stdio.takeWhile (· != 10)).length + 1) <
      stdio.length := by
    by_contra hle
    rw [take, List.drop_of_length_le (Nat.le_of_not_lt hle)] at h
    cases h
  have hlen : (take line stdio).1.length =
      line.length + min (255 - line.length) ((stdio.takeWhile (· != 10)).length + 1) := by
    rw [take, List.length_append, List.length_take, Nat.min_eq_left hlong.le]
  rcases Nat.le_total (255 - line.length) ((stdio.takeWhile (· != 10)).length + 1) with hle | hle
  · left
    rw [hlen, Nat.min_eq_left hle]
    omega
  · right
    rw [Nat.min_eq_right hle] at hlong
    have hnl : stdio.take ((stdio.takeWhile (· != 10)).length + 1) =
        stdio.takeWhile (· != 10) ++ [10] := by
      obtain ⟨b, rest, hrest⟩ : ∃ b rest, stdio.dropWhile (· != 10) = b :: rest := by
        refine List.exists_cons_of_ne_nil fun hnil => ?_
        have hall := List.takeWhile_append_dropWhile (p := (· != 10)) (l := stdio)
        rw [hnil, List.append_nil] at hall
        have hlen' := congrArg List.length hall
        omega
      have hb : b = 10 := by
        have hnot := List.head?_dropWhile_not (· != 10) stdio
        rw [hrest] at hnot
        simpa using hnot
      have hsplit := List.takeWhile_append_dropWhile (p := (· != 10)) (l := stdio)
      rw [hrest, hb, List.append_cons] at hsplit
      have htake := @List.take_left _ (stdio.takeWhile (· != 10) ++ [10]) rest
      rwa [hsplit, List.length_append, List.length_singleton] at htake
    rw [take, Nat.min_eq_right hle, hnl, ← List.append_assoc]
    exact List.getLast?_concat

/-- The replies that wait for the server. -/
def waiting (drivers : List DriverQueues) : ℕ := (drivers.map (·.replies)).sum

theorem waiting_readReply_le (drivers : List DriverQueues) (i : ℕ) :
    waiting (readReply drivers i) ≤ waiting drivers := by
  induction drivers generalizing i with
  | nil => rw [readReply, List.modify_nil]
  | cons d ds ih =>
    cases i with
    | zero =>
      simp only [waiting, readReply, List.modify_zero_cons, List.map_cons, List.sum_cons]
      omega
    | succ i =>
      have hrest := ih i
      simp only [waiting, readReply, List.modify_succ_cons, List.map_cons, List.sum_cons] at hrest ⊢
      omega

theorem waiting_readReply_lt {drivers : List DriverQueues} {i : ℕ} {d : DriverQueues}
    (h : drivers[i]? = some d) (hpos : 0 < d.replies) :
    waiting (readReply drivers i) < waiting drivers := by
  induction drivers generalizing i with
  | nil => cases h
  | cons d' ds ih =>
    cases i with
    | zero =>
      obtain rfl := Option.some.inj h
      simp only [waiting, readReply, List.modify_zero_cons, List.map_cons, List.sum_cons]
      omega
    | succ i =>
      have hrest := ih h
      simp only [waiting, readReply, List.modify_succ_cons, List.map_cons, List.sum_cons] at hrest ⊢
      omega

/-- The loop over the drivers reads the replies and goes back to `select`. -/
theorem runFrom_loop (ready : List ℕ) {s : Console} (hpc : s.pc = .loop ready) :
    runFrom step s (List.replicate (ready.length + 1) .next) =
      some { s with pc := .select, drivers := ready.foldl readReply s.drivers } := by
  induction ready generalizing s with
  | nil =>
    rw [List.length_nil, Nat.zero_add, List.replicate_one, runFrom_singleton, step, hpc]
    rfl
  | cons i ready ih =>
    rw [List.length_cons, List.replicate_succ, runFrom_cons, step, hpc]
    exact ih rfl

theorem waiting_foldl_le (ready : List ℕ) (drivers : List DriverQueues) :
    waiting (ready.foldl readReply drivers) ≤ waiting drivers := by
  induction ready generalizing drivers with
  | nil => exact Nat.le_refl _
  | cons i ready ih => exact (ih _).trans (waiting_readReply_le drivers i)

/-- A driver is ready when a reply of it waits. -/
theorem mem_ready {s : Console} {i : ℕ} :
    i ∈ s.ready ↔ ∃ d, s.drivers[i]? = some d ∧ 0 < d.replies := by
  rw [ready, List.mem_filter, List.mem_range, decide_eq_true_eq]
  constructor
  · rintro ⟨hi, hne⟩
    rw [List.getElem?_eq_getElem hi] at hne ⊢
    exact ⟨_, rfl, Nat.pos_of_ne_zero hne⟩
  · rintro ⟨d, hd, hpos⟩
    rw [hd]
    exact ⟨(List.getElem?_eq_some_iff.1 hd).1, hpos.ne'⟩

/-- A server that enters the loop over the drivers gets stuck if it does so behind the loop. -/
theorem exists_stuck_of_loop {s s' : Console} {a : Action} {ready : List ℕ}
    (hs : s.step a = some s') (ha : a.IsServer) (hpc : s'.pc = .loop ready)
    (h : ∃ bs t, (∀ b ∈ bs, b.IsServer) ∧
      runFrom step { s' with pc := .select, drivers := ready.foldl readReply s'.drivers } bs =
        some t ∧ t.Stuck) :
    ∃ bs t, (∀ b ∈ bs, b.IsServer) ∧ runFrom step s bs = some t ∧ t.Stuck := by
  obtain ⟨bs, t, hbs, hrun, hstuck⟩ := h
  refine ⟨a :: (List.replicate (ready.length + 1) .next ++ bs), t, ?_, ?_, hstuck⟩
  · intro b hb
    rcases List.mem_cons.1 hb with rfl | hb
    · exact ha
    rcases List.mem_append.1 hb with hb | hb
    · rw [List.eq_of_mem_replicate hb]
      trivial
    · exact hbs b hb
  · rw [runFrom_cons, hs, Option.bind_some, runFrom_append, runFrom_loop ready hpc]
    exact hrun

/-- Left alone, a server with a line in the buffer gets stuck. -/
theorem exists_stuck {s : Console} (hpc : s.pc = .select) (hstdin : s.stdin = [])
    (hline : 10 ∈ s.stdio) :
    ∃ bs t, (∀ b ∈ bs, b.IsServer) ∧ runFrom step s bs = some t ∧ t.Stuck := by
  obtain ⟨n, hn⟩ : ∃ n, waiting s.drivers = n := ⟨_, rfl⟩
  induction n using Nat.strong_induction_on generalizing s with
  | _ n ih =>
    cases hready : s.ready with
    | nil =>
      refine ⟨[], s, fun b hb => absurd hb List.not_mem_nil, rfl, hpc, hstdin, fun d hd => ?_,
        hline⟩
      obtain ⟨i, hi⟩ := List.mem_iff_getElem?.1 hd
      by_contra hne
      have hmem := mem_ready.2 ⟨d, hi, Nat.pos_of_ne_zero hne⟩
      rw [hready] at hmem
      cases hmem
    | cons i ready =>
      obtain ⟨d, hd, hpos⟩ := mem_ready.1 (hready ▸ List.mem_cons_self : i ∈ s.ready)
      have hselect : s.step .select = some { s with pc := .loop (i :: ready) } := by
        simp only [step, hpc, hstdin, hready, ne_eq, not_true_eq_false, if_false, reduceCtorEq,
          not_false_eq_true, if_true]
      have hless : waiting ((i :: ready).foldl readReply s.drivers) < n := by
        rw [List.foldl_cons, ← hn]
        exact (waiting_foldl_le _ _).trans_lt (waiting_readReply_lt hd hpos)
      refine exists_stuck_of_loop hselect trivial rfl ?_
      exact ih _ hless rfl hstdin hline rfl

/-- A refill that does not meet the condition is followed by a line that stays in the buffer. -/
theorem exists_stuck_of_not_meets {s s' : Console} {a : Action} (hs : s.step a = some s')
    (hnot : ¬ s.Meets a) :
    ∃ bs t, (∀ b ∈ bs, b.IsServer) ∧ runFrom step s' bs = some t ∧ t.Stuck := by
  cases a with
  | refill =>
    rw [Meets] at hnot
    push Not at hnot
    obtain ⟨line, ready, hpc, hleft, hexit⟩ := hnot
    rw [Console.step, hpc] at hs
    dsimp only at hs
    split at hs
    · obtain rfl := Option.some.inj hs
      have hreturns := returns_of_left hleft
      cases hhandle : handle s.drivers (-1)
          (parseCli (take (take line s.stdio).1 s.stdin).1) with
      | none => exact absurd (handle_eq_none.1 hhandle) hexit
      | some drivers =>
        have hline :
            step ⟨[], s.stdin, .fgets (take line s.stdio).1 ready, s.drivers⟩ (.line (-1)) =
            some ⟨[], (take (take line s.stdio).1 s.stdin).2, .loop ready, drivers⟩ := by
          simp only [step, if_pos hreturns, hhandle]
        exact exists_stuck_of_loop hline trivial rfl (exists_stuck rfl rfl hleft)
    · cases hs
  | _ => exact absurd trivial hnot

/-! ## The server -/

/-- **No line is left waiting** as long as every refill brings at most the line that `fgets`
returns; after a refill that brings more, the server left alone gets stuck with the rest. -/
theorem not_stuck {as : List Action} {s : Console} (h : runFrom step init as = some s) :
    (StepsMeet step Meets init as → ¬ s.Stuck) ∧
      ∀ a s', s.step a = some s' → ¬ s.Meets a →
        ∃ bs t, (∀ b ∈ bs, b.IsServer) ∧ runFrom step s' bs = some t ∧ t.Stuck := by
  have hinit : Calm init := List.not_mem_nil
  exact ⟨fun hmeet => Calm.free (runFrom_invariant_of_meet
      (fun _ _ _ hcalm hmeet hs => hcalm.step hmeet hs) hinit hmeet h),
    fun _ _ hs hnot => exists_stuck_of_not_meets hs hnot⟩

/-- One line at a time is handled. -/
def oneLine : List Action :=
  [.arrive (ascii "create_driver\n"), .select, .refill, .line 7, .next]

theorem not_stuck_oneLine : ∃ s, runFrom step init oneLine = some s ∧ s.drivers.length = 1 ∧
    ¬ s.Stuck := by
  have hrun : runFrom step init oneLine = some _ := rfl
  refine ⟨_, hrun, rfl, (not_stuck hrun).1 ⟨trivial, fun t ht => ?_⟩⟩
  obtain rfl := Option.some.inj ht
  refine ⟨trivial, fun t ht => ?_⟩
  obtain rfl := Option.some.inj ht
  refine ⟨fun line ready hpc => Or.inl ?_, fun _ _ => ⟨trivial, fun _ _ => ⟨trivial, fun _ _ =>
    trivial⟩⟩⟩
  obtain ⟨rfl, -⟩ := ServerPc.fgets.inj hpc
  decide

/-- Two lines arrive in one chunk, and the second stays in the buffer. -/
theorem stuck_twoLines : ∃ s, runFrom step init
    [.arrive (ascii "create_driver\nget_drivers\n"), .select, .refill, .line 7, .next] = some s ∧
      s.Stuck := by
  refine ⟨_, rfl, rfl, rfl, fun d hd => ?_, ?_⟩
  · obtain rfl := List.mem_singleton.1 hd
    rfl
  · decide

end Console

end EltexPractice.Taxi
