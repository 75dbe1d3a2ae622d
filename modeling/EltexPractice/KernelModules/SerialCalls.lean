import EltexPractice.KernelModules.DeviceSessions

/-!
# Calls one after the other

The calls on the device take turns byte by byte, and the threads of the process that has it open may
mix them. Where each call begins when no other is in progress, whoever the processes are and however
they open and close the device, the calls return what `device_read` and `device_write` return as a
whole, one after the other: `serial_law`. In particular a process reads what another one has written
before it.

* `Progress`: how far a call has come, in terms of the device before it.
* `Serial`: the device as the calls that are over have left it.
-/

namespace EltexPractice.CharDevice

open CString

/-! ## Whole calls -/

/-- A call as a whole: what it returns, and what it leaves. -/
def OpenFile.perform (f : OpenFile) : Call → Option (Reply × OpenFile)
  | .write buff =>
    some (.wrote (deviceWrite f.device buff).2, { f with device := (deviceWrite f.device buff).1 })
  | .read length =>
    (deviceRead f.device f.pos length).map fun x => (.read x.1, { f with pos := x.2 })
  | .pread offset length => (deviceRead f.device offset length).map fun x => (.read x.1, f)
  | .reopen => some (.opened, { f with pos := 0 })

/-- It leaves what the call leaves in a sequence of calls. -/
theorem OpenFile.map_perform (f : OpenFile) (c : Call) : (f.perform c).map (·.2) = step f c := by
  cases c with
  | write buff => rfl
  | read length =>
    rw [perform, step, Option.map_map]
    cases deviceRead f.device f.pos length <;> rfl
  | pread offset length =>
    rw [perform, step, Option.map_map]
    cases deviceRead f.device offset length <;> rfl
  | reopen => rfl

/-- The next call with what it has returned. -/
def OpenFile.replay (f : OpenFile) (e : Call × Reply) : Option OpenFile :=
  match f.perform e.1 with
  | some (reply, f') => if reply = e.2 then some f' else none
  | none => none

theorem OpenFile.replay_of_perform {f f' : OpenFile} {c : Call} {reply : Reply}
    (h : f.perform c = some (reply, f')) : f.replay (c, reply) = some f' := by
  simp [replay, h]

/-- The device behind some calls. -/
theorem run_of_replay {f f' : OpenFile} {history : List (Call × Reply)}
    (h : runFrom OpenFile.replay f history = some f') : run f (history.map (·.1)) = some f' := by
  induction history generalizing f with
  | nil => exact h
  | cons e history ih =>
    rw [runFrom_cons, Option.bind_eq_some_iff] at h
    obtain ⟨f'', hreplay, h⟩ := h
    rw [OpenFile.replay] at hreplay
    split at hreplay
    · rename_i reply g hperform
      split at hreplay
      · obtain rfl := Option.some.inj hreplay
        have hstep := f.map_perform e.1
        rw [hperform, Option.map_some] at hstep
        rw [List.map_cons, run, List.foldlM_cons, ← hstep]
        exact ih h
      · cases hreplay
    · cases hreplay

/-! ## How far a call has come -/

/-- A byte of a buffer that ends the string in it, or belongs to it. -/
theorem cstr_next {l : List UInt8} {k : ℕ} {b : UInt8} (hk : k ≤ (cstr l).length)
    (hb : l[k]? = some b) : (b = 0 → (cstr l).length = k) ∧
      (b ≠ 0 → k < (cstr l).length ∧ (cstr l).take (k + 1) = (cstr l).take k ++ [b]) := by
  induction l generalizing k with
  | nil => simp at hb
  | cons a l ih =>
    by_cases ha : a = 0
    · rw [ha, cstr_cons_zero] at hk ⊢
      obtain rfl : k = 0 := Nat.le_zero.1 hk
      have hzero : b = 0 := by simpa [ha] using hb.symm
      simp [hzero]
    · rw [cstr_cons ha] at hk ⊢
      cases k with
      | zero =>
        obtain rfl : a = b := by simpa using hb
        simp [ha]
      | succ k =>
        have hnext := ih (by simpa using hk) (by simpa using hb)
        simpa using hnext

/-- The call is a read. -/
def Call.reads : Call → Prop
  | .read _ => True
  | .pread _ _ => True
  | _ => False

/-- A read as a whole. -/
theorem perform_of_deviceRead {f : OpenFile} {r : Running} {bytes : List UInt8} {offset : ℕ}
    (hreads : r.call.reads) (hfile : r.call.movesFile → r.start = f.pos)
    (hpread : r.call.movesFile = false → ∃ length, r.call = .pread r.start length)
    (h : deviceRead f.device r.start r.call.length = some (bytes, offset)) :
    ∃ f', f.perform r.call = some (.read bytes, f') ∧ f'.device = f.device ∧
      f'.pos = if r.call.movesFile then offset else f.pos := by
  cases hcall : r.call with
  | read length =>
    rw [hcall] at hfile h
    rw [hfile rfl] at h
    exact ⟨{ f with pos := offset }, by simp [OpenFile.perform, Call.length] at h ⊢; simp [h],
      rfl, rfl⟩
  | pread offset' length =>
    rw [hcall] at hpread h
    obtain ⟨length', heq⟩ := hpread rfl
    obtain ⟨rfl, rfl⟩ := Call.pread.inj heq
    exact ⟨f, by simp [OpenFile.perform, Call.length] at h ⊢; simp [h], rfl, rfl⟩
  | write buff =>
    rw [hcall] at hreads
    exact hreads.elim
  | reopen =>
    rw [hcall] at hreads
    exact hreads.elim

/-- The text that a read at this place can return. -/
def OpenFile.textFrom (f : OpenFile) (start : ℕ) : List UInt8 := cstr (f.device.msg.drop start)

theorem OpenFile.textFrom_next {f : OpenFile} {start k : ℕ} {b : UInt8}
    (hk : k ≤ (f.textFrom start).length) (hb : f.device.msg[start + k]? = some b) :
    (b = 0 → (f.textFrom start).length = k) ∧
      (b ≠ 0 → k < (f.textFrom start).length ∧
        (f.textFrom start).take (k + 1) = (f.textFrom start).take k ++ [b]) :=
  cstr_next hk (by rw [List.getElem?_drop, hb])

/-- A read of an empty text. -/
theorem OpenFile.deviceRead_nil {f : OpenFile} {start : ℕ} (hstart : start < bufLen)
    (h : f.textFrom start = []) (length : ℕ) :
    deviceRead f.device start length = some ([], 0) :=
  (deviceRead_eq f.device hstart length).trans (if_pos h)

theorem OpenFile.deviceRead_text {f : OpenFile} {start : ℕ} (hstart : start < bufLen)
    (h : f.textFrom start ≠ []) (length : ℕ) :
    deviceRead f.device start length = some ((f.textFrom start).take length,
      start + min length (f.textFrom start).length) :=
  (deviceRead_eq f.device hstart length).trans (if_neg h)

/-- How far a call has come that began with the device as in `f`. -/
def Progress (f : OpenFile) (msg : List UInt8) (r : Running) : Running.Pc → Prop
  | .first => r.call.reads ∧ msg = f.device.msg
  | .test bytes => r.call.reads ∧ msg = f.device.msg ∧ f.textFrom r.start ≠ [] ∧
      bytes = (f.textFrom r.start).take bytes.length
  | .put bytes => r.call.reads ∧ msg = f.device.msg ∧
      bytes = (f.textFrom r.start).take bytes.length ∧
      bytes.length < (f.textFrom r.start).length
  | .clear i => r.call = .write r.call.buff ∧
      msg = List.replicate i 0 ++ f.device.msg.drop i
  | .store ind => r.call = .write r.call.buff ∧
      msg = r.call.buff.take ind ++ List.replicate (bufLen - ind) 0
  | .back reply offset => ∃ f', f.perform r.call = some (reply, f') ∧ msg = f'.device.msg ∧
      f'.pos = if r.call.movesFile then offset else f.pos
  | .finished _ => msg = f.device.msg

/-- What `device_write` leaves. -/
theorem msg_deviceWrite (d : Device) (buff : List UInt8) :
    (deviceWrite d buff).1.msg =
      buff.take 79 ++ List.replicate (bufLen - min 79 buff.length) 0 := by
  have hzeros : bufLen - min 79 buff.length = 79 - buff.length + 1 := by
    rw [bufLen]
    omega
  change (fill _ 0 buff).1 = _
  rw [fill_zeros, hzeros]

section Turn

variable {f : OpenFile} {msg msg' : List UInt8} {r r' : Running}

/-- A read ends where the text does, or the buffer. -/
theorem Progress.stop (hr : r.Inv) {bytes : List UInt8}
    (hfile : r.call.movesFile → r.start = f.pos)
    (hpread : r.call.movesFile = false → ∃ length, r.call = .pread r.start length)
    (hpc : r.pc = .test bytes) (h : Progress f msg r (.test bytes))
    (hend : bytes.length = min r.call.length (f.textFrom r.start).length) :
    Progress f msg r (.back (.read bytes) (r.start + bytes.length)) := by
  obtain ⟨hreads, rfl, hne, hbytes⟩ := h
  have hin := hr.inside
  rw [hpc] at hin
  have hread := OpenFile.deviceRead_text (lt_of_le_of_lt (Nat.le_add_right _ _) hin.1) hne
    r.call.length
  have htake : (f.textFrom r.start).take r.call.length = bytes := by
    rw [hbytes, hend, List.take_eq_take_min]
  rw [← hend, htake] at hread
  obtain ⟨f', hperform, hdevice, hpos⟩ := perform_of_deviceRead hreads hfile hpread hread
  exact ⟨f', hperform, by rw [hdevice], hpos⟩

theorem Progress.turn (h : Progress f msg r r.pc) (hr : r.Inv)
    (hfile : r.call.movesFile → r.start = f.pos)
    (hpread : r.call.movesFile = false → ∃ length, r.call = .pread r.start length)
    (hturn : r.Moves msg msg' r') : Progress f msg' r' r'.pc := by
  have hin := hr.inside
  cases hturn with
  | stop hpc hget =>
    rw [hpc] at h
    obtain ⟨hreads, rfl⟩ := h
    have hlt := (List.getElem?_eq_some_iff.1 hget).1
    rw [f.device.length_msg] at hlt
    have htext := (OpenFile.textFrom_next (Nat.zero_le _) hget).1 rfl
    have hread := OpenFile.deviceRead_nil hlt (List.length_eq_zero_iff.1 htext) r.call.length
    obtain ⟨f', hperform, hdevice, hpos⟩ := perform_of_deviceRead hreads hfile hpread hread
    exact ⟨f', hperform, by rw [hdevice], hpos⟩
  | start b hpc hget hb =>
    rw [hpc] at h
    obtain ⟨hreads, rfl⟩ := h
    have hpos := ((OpenFile.textFrom_next (Nat.zero_le _) hget).2 hb).1
    exact ⟨hreads, rfl, List.ne_nil_of_length_pos hpos, rfl⟩
  | full bytes hpc hlen =>
    rw [hpc] at h
    have hle := congrArg List.length h.2.2.2
    rw [List.length_take] at hle
    exact Progress.stop hr hfile hpread hpc h (by omega)
  | nul bytes hpc hlen hget =>
    rw [hpc] at h hin
    have hle := congrArg List.length h.2.2.2
    rw [List.length_take] at hle
    rw [h.2.1] at hget
    have hend := (OpenFile.textFrom_next (by omega) hget).1 rfl
    have hshort := hin.2
    exact Progress.stop hr hfile hpread hpc h (by omega)
  | more bytes b hpc hlen hget hb =>
    rw [hpc] at h
    obtain ⟨hreads, rfl, -, hbytes⟩ := h
    have hle := congrArg List.length hbytes
    rw [List.length_take] at hle
    exact ⟨hreads, rfl, hbytes, ((OpenFile.textFrom_next (by omega) hget).2 hb).1⟩
  | put bytes b hpc hget =>
    rw [hpc] at h
    obtain ⟨hreads, rfl, hbytes, hlt⟩ := h
    -- nothing has changed since the byte was looked at
    have hnext := OpenFile.textFrom_next hlt.le hget
    have hb : b ≠ 0 := fun hzero => hlt.ne (hnext.1 hzero).symm
    refine ⟨hreads, rfl, List.ne_nil_of_length_pos (Nat.zero_lt_of_lt hlt), ?_⟩
    rw [List.length_append, List.length_singleton]
    exact (congrArg (· ++ [b]) hbytes).trans (hnext.2 hb).2.symm
  | clear i hpc =>
    rw [hpc] at h hin
    obtain ⟨hwrite, rfl⟩ := h
    have hlt : i < f.device.msg.length := by rw [f.device.length_msg]; exact hin
    have hset : (List.replicate i (0 : UInt8) ++ f.device.msg.drop i).set i 0 =
        List.replicate (i + 1) 0 ++ f.device.msg.drop (i + 1) := by
      rw [List.set_append_right _ _ (by simp), List.length_replicate, Nat.sub_self,
        List.drop_eq_getElem_cons hlt, List.set_cons_zero, List.replicate_succ',
        List.append_assoc, List.singleton_append]
    simp only
    split
    · exact ⟨hwrite, hset⟩
    · rename_i hend
      have hall : i + 1 = bufLen := Nat.le_antisymm hin (Nat.le_of_not_lt hend)
      refine ⟨hwrite, ?_⟩
      rw [hset, hall, List.drop_of_length_le f.device.length_msg.le, List.append_nil,
        List.take_zero, List.nil_append, Nat.sub_zero]
  | store ind b hpc hget hind =>
    rw [hpc] at h
    obtain ⟨hwrite, rfl⟩ := h
    obtain ⟨hlt, hb⟩ := List.getElem?_eq_some_iff.1 hget
    have hlen : (r.call.buff.take ind).length = ind := by
      rw [List.length_take]
      omega
    have hzeros : bufLen - ind = bufLen - (ind + 1) + 1 := by omega
    refine ⟨hwrite, ?_⟩
    rw [List.set_append_right _ _ hlen.le, hlen, Nat.sub_self, hzeros, List.replicate_succ,
      List.set_cons_zero, List.take_succ_eq_append_getElem hlt, hb, List.append_assoc,
      List.singleton_append]
  | wrote ind hpc hend =>
    rw [hpc] at h hin
    obtain ⟨hwrite, rfl⟩ := h
    obtain ⟨hle, hle'⟩ := hin
    have hind : ind = min 79 r.call.buff.length := by
      rw [bufLen] at hle hend
      omega
    have hmoves : r.call.movesFile = true := by rw [hwrite]; rfl
    refine ⟨{ f with device := (deviceWrite f.device r.call.buff).1 }, ?_, ?_, ?_⟩
    · rw [hind, ← deviceWrite_snd f.device]
      exact congrArg f.perform hwrite
    · change _ = (deviceWrite f.device r.call.buff).1.msg
      rw [msg_deviceWrite, ← hind]
      congr 1
      rw [hind, ← List.take_eq_take_min]
    · change f.pos = if r.call.movesFile then r.start else f.pos
      rw [if_pos hmoves, hfile hmoves]

end Turn

/-! ## One call at a time -/

theorem Running.Pc.unfinished {pc : Running.Pc} (h : pc.inModule) : pc.isFinished = false := by
  cases pc <;> simp [inModule] at h ⊢ <;> rfl

theorem Running.Moves.unfinished {msg msg' : List UInt8} {r r' : Running}
    (h : r.Moves msg msg' r') : r'.pc.isFinished = false := by
  cases h with
  | clear i hpc =>
    simp only
    split <;> rfl
  | _ => rfl

/-- The condition on a step: a call begins when no other is in progress. -/
def Driver.Alone (s : Driver) (a : Action) : Prop :=
  ∀ i c, a = .request i c → ∀ r ∈ s.calls, r.pc.isFinished

/-- The process is inside `device_open`. -/
def Session.Pc.Fresh (pc : Session.Pc) : Prop := pc = .cmpxchg ∨ pc = .tryGet ∨ pc = .success

/-- A process stays where it is in its file; one that has it open comes from `device_open`. -/
theorem Session.Moves.file {live b b' : Bool} {refs refs' : ℕ} {x x' : Session}
    (h : x.Moves live refs b b' refs' x') :
    x'.pos = x.pos ∧ (x'.pc = .opened ↔ x.pc = .success) ∧ (x'.pc.Fresh → x.pc.Fresh) := by
  cases h with
  | take hpc => exact ⟨rfl, by simp [hpc], fun _ => Or.inl hpc⟩
  | get hpc => exact ⟨rfl, by simp [hpc], fun _ => Or.inr (Or.inl hpc)⟩
  | miss hpc => exact ⟨rfl, by simp [hpc], fun _ => Or.inr (Or.inl hpc)⟩
  | success hpc => exact ⟨rfl, by simp [hpc], by simp [Session.Pc.Fresh]⟩
  | taken hpc => exact ⟨rfl, by simp [hpc], by simp [Session.Pc.Fresh]⟩
  | busy hpc => exact ⟨rfl, by simp [hpc], by simp [Session.Pc.Fresh]⟩
  | set hpc => exact ⟨rfl, by simp [hpc], by simp [Session.Pc.Fresh]⟩
  | put hpc => exact ⟨rfl, by simp [hpc], by simp [Session.Pc.Fresh]⟩
  | released hpc => exact ⟨rfl, by simp [hpc], by simp [Session.Pc.Fresh]⟩

/-- The device `f` as the calls that are over have left it, and how far the one in progress has
come. -/
structure Driver.Serial (s : Driver) (f : OpenFile) : Prop where
  replayed : runFrom OpenFile.replay ⟨zeroed, 0⟩ s.history = some f
  /-- The position of the file that is open, -/
  position : ∀ x ∈ s.sessions, x.pc = .opened → x.pos = f.pos
  /-- and of one that is not open yet. -/
  fresh : ∀ x ∈ s.sessions, x.pc.Fresh → x.pos = 0
  one : s.calls.countP (fun r => !r.pc.isFinished) ≤ 1
  idle : (∀ r ∈ s.calls, r.pc.isFinished) → s.msg = f.device.msg
  file : ∀ r ∈ s.calls, r.pc.isFinished = false → r.call.movesFile → r.start = f.pos
  progress : ∀ r ∈ s.calls, r.pc.isFinished = false → Progress f s.msg r r.pc

namespace Driver.Serial

variable {s t : Driver} {f : OpenFile} {a : Action}

theorem init : Driver.init.Serial ⟨zeroed, 0⟩ where
  replayed := rfl
  position := by simp [Driver.init]
  fresh := by simp [Driver.init]
  one := by simp [Driver.init]
  idle _ := rfl
  file := by simp [Driver.init]
  progress := by simp [Driver.init]

/-- A turn that changes neither calls nor `msg` nor positions of open files. -/
theorem sessions (h : s.Serial f) {alreadyOpen : Bool} {refs : ℕ} {sessions : List Session}
    (hposition : ∀ x ∈ sessions, x.pc = .opened → x.pos = f.pos)
    (hfresh : ∀ x ∈ sessions, x.pc.Fresh → x.pos = 0) :
    Driver.Serial { s with alreadyOpen, refs, sessions } f :=
  { h with position := hposition, fresh := hfresh }

/-- `device_open` succeeds. -/
theorem success (h : s.Serial f) (hs : s.Inv) {i : ℕ} {x x' : Session} {alreadyOpen : Bool}
    {refs : ℕ} (hget : s.sessions[i]? = some x) (hpc : x.pc = .success) (hpc' : x'.pc = .opened)
    (hpos : x'.pos = x.pos) :
    Driver.Serial { s with
      alreadyOpen, refs
      sessions := s.sessions.set i x'
      history := s.history ++ [(.reopen, .opened)] } { f with pos := 0 } := by
  have hmem := List.mem_of_getElem? hget
  -- no other process has the device open
  have hother : ∀ (j : ℕ) (y : Session), s.sessions[j]? = some y → y.pc ≠ .opened := by
    intro j y hy hopened
    have hij := hs.openings.eq_of_holds hget hy (by rw [hpc]; rfl) (by rw [hopened]; rfl)
    obtain rfl := Option.some.inj (hget.symm.trans (hij ▸ hy))
    rw [hpc] at hopened
    cases hopened
  have hidle : ∀ r ∈ s.calls, r.pc.isFinished := by
    intro r hr
    rw [← Bool.not_eq_false]
    intro hfin
    obtain ⟨y, hy, hopened⟩ := hs.files r hr hfin
    exact hother _ _ hy hopened
  refine ⟨?_, fun y hy hopened => ?_, fun y hy hy' => ?_, h.one, fun _ => h.idle hidle,
    fun r hr hfin => ?_, fun r hr hfin => ?_⟩
  · exact runFrom_concat.2 ⟨f, h.replayed, rfl⟩
  · rcases List.mem_or_eq_of_mem_set hy with hy | rfl
    · obtain ⟨j, hj⟩ := List.mem_iff_getElem?.1 hy
      exact absurd hopened (hother j y hj)
    · exact hpos.trans (h.fresh x hmem (Or.inr (Or.inr hpc)))
  · rcases List.mem_or_eq_of_mem_set hy with hy | rfl
    · exact h.fresh y hy hy'
    · simp [Session.Pc.Fresh, hpc'] at hy'
  · exact absurd (hidle r hr) (by simp [hfin])
  · exact absurd (hidle r hr) (by simp [hfin])

theorem session (h : s.Serial f) {i : ℕ} {x x' : Session} {alreadyOpen : Bool}
    {refs : ℕ} (hget : s.sessions[i]? = some x) (hpc : x.pc ≠ .success)
    (hturn : x.Moves (s.module = .live) s.refs s.alreadyOpen alreadyOpen refs x') :
    Driver.Serial { s with alreadyOpen, refs, sessions := s.sessions.set i x' } f := by
  have hmem := List.mem_of_getElem? hget
  obtain ⟨hpos, hopen, hfresh⟩ := hturn.file
  refine h.sessions (fun y hy hopened => ?_) fun y hy hy' => ?_
  · rcases List.mem_or_eq_of_mem_set hy with hy | rfl
    · exact h.position y hy hopened
    · exact absurd (hopen.1 hopened) hpc
  · rcases List.mem_or_eq_of_mem_set hy with hy | rfl
    · exact h.fresh y hy hy'
    · exact hpos.trans (h.fresh x hmem (hfresh hy'))

/-- The call in progress is the only one. -/
theorem eq_of_unfinished (h : s.Serial f) {k j : ℕ} {r y : Running} (hget : s.calls[k]? = some r)
    (hy : s.calls[j]? = some y) (hfin : r.pc.isFinished = false) (hfin' : y.pc.isFinished = false) :
    j = k :=
  eq_of_countP_le_one (p := fun r : Running => !r.pc.isFinished) h.one hy hget (by simp [hfin'])
    (by simp [hfin])

theorem one_set (h : s.Serial f) {k : ℕ} {r : Running} (hget : s.calls[k]? = some r)
    (hfin : r.pc.isFinished = false) (r' : Running) :
    (s.calls.set k r').countP (fun r => !r.pc.isFinished) ≤ 1 := by
  have hcount := countP_set_add (p := fun r : Running => !r.pc.isFinished) hget r'
  have hone := h.one
  have hle := Bool.toNat_le (!r'.pc.isFinished)
  simp only [hfin, Bool.not_false, Bool.toNat_true] at hcount
  omega

theorem request (h : s.Serial f) {i : ℕ} {c : Call} {x : Session} {r : Running}
    (hget : s.sessions[i]? = some x) (hpc : x.pc = .opened) (hbegin : c.begin i x.pos = some r)
    (halone : ∀ r ∈ s.calls, r.pc.isFinished) :
    Driver.Serial { s with calls := s.calls ++ [r] } f := by
  have hpos := h.position x (List.mem_of_getElem? hget) hpc
  have hmsg := h.idle halone
  have hr : r.pc.isFinished = false ∧ (r.call.movesFile → r.start = f.pos) ∧
      Progress f s.msg r r.pc := by
    cases c with
    | write buff =>
      obtain rfl := Option.some.inj hbegin
      exact ⟨rfl, fun _ => hpos, rfl, by simpa using hmsg⟩
    | read length =>
      obtain rfl := Option.some.inj hbegin
      exact ⟨rfl, fun _ => hpos, trivial, hmsg⟩
    | pread offset length =>
      obtain rfl := Option.some.inj hbegin
      exact ⟨rfl, by simp [Call.movesFile], trivial, hmsg⟩
    | reopen => cases hbegin
  have hnew : ∀ y ∈ s.calls ++ [r], y.pc.isFinished = false → y = r := by
    intro y hy hfin
    rcases List.mem_append.1 hy with hy | hy
    · exact absurd (halone y hy) (by simp [hfin])
    · exact List.mem_singleton.1 hy
  refine ⟨h.replayed, h.position, h.fresh, ?_, fun hidle => ?_, fun y hy hfin => ?_,
    fun y hy hfin => ?_⟩
  · have hzero : s.calls.countP (fun r => !r.pc.isFinished) = 0 :=
      List.countP_eq_zero.2 fun y hy => by simp [halone y hy]
    simp [List.countP_append, hzero, hr.1]
  · have hfin := hidle r (by simp)
    rw [hr.1] at hfin
    cases hfin
  · obtain rfl := hnew y hy hfin
    exact hr.2.1
  · obtain rfl := hnew y hy hfin
    exact hr.2.2

theorem call (h : s.Serial f) (hs : s.Inv) {k : ℕ} {r r' : Running} {msg : List UInt8}
    (hget : s.calls[k]? = some r) (hin : r.pc.inModule) (hturn : r.Moves s.msg msg r') :
    Driver.Serial { s with msg, calls := s.calls.set k r' } f := by
  have hmem := List.mem_of_getElem? hget
  have hfin := Running.Pc.unfinished hin
  have hfin' := hturn.unfinished
  obtain ⟨-, hcall, hstart⟩ := hturn.same
  have hthis : ∀ y ∈ s.calls.set k r', y.pc.isFinished = false → y = r' := by
    intro y hy hyfin
    obtain ⟨j, hj⟩ := List.mem_iff_getElem?.1 hy
    rcases cases_of_getElem?_set hj with ⟨-, rfl⟩ | ⟨hne, hold⟩
    · rfl
    · exact absurd (h.eq_of_unfinished hget hold hfin hyfin) hne
  have hlt := (List.getElem?_eq_some_iff.1 hget).1
  refine ⟨h.replayed, h.position, h.fresh, h.one_set hget hfin r', fun hidle => ?_,
    fun y hy hyfin => ?_, fun y hy hyfin => ?_⟩
  · have hlast := hidle r' (List.mem_iff_getElem?.2 ⟨k, List.getElem?_set_self hlt⟩)
    rw [hfin'] at hlast
    cases hlast
  · obtain rfl := hthis y hy hyfin
    rw [hcall, hstart]
    exact h.file r hmem hfin
  · obtain rfl := hthis y hy hyfin
    exact (h.progress r hmem hfin).turn (hs.memory.each r hmem) (h.file r hmem hfin)
      (hs.pread r hmem) hturn

/-- A call is over. -/
theorem back (h : s.Serial f) (hs : s.Inv) {k : ℕ} {r : Running} {x : Session} {reply : Reply}
    {offset : ℕ} (hget : s.calls[k]? = some r) (hpc : r.pc = .back reply offset)
    (hsession : s.sessions[r.session]? = some x) :
    ∃ f', Driver.Serial { s with
      calls := s.calls.set k { r with pc := .finished reply }
      sessions := s.sessions.set r.session
        { x with pos := if r.call.movesFile then offset else x.pos }
      history := s.history ++ [(r.call, reply)] } f' := by
  have hmem := List.mem_of_getElem? hget
  have hfin : r.pc.isFinished = false := by rw [hpc]; rfl
  have hprogress := h.progress r hmem hfin
  rw [hpc] at hprogress
  obtain ⟨f', hperform, hmsg, hpos⟩ := hprogress
  obtain ⟨z, hz, hopened⟩ := hs.files r hmem hfin
  obtain rfl := Option.some.inj (hsession.symm.trans hz)
  have hx := h.position x (List.mem_of_getElem? hsession) hopened
  have hnone : ∀ y ∈ s.calls.set k { r with pc := .finished reply }, y.pc.isFinished := by
    intro y hy
    rw [← Bool.not_eq_false]
    intro hyfin
    obtain ⟨j, hj⟩ := List.mem_iff_getElem?.1 hy
    rcases cases_of_getElem?_set hj with ⟨-, rfl⟩ | ⟨hne, hold⟩
    · cases hyfin
    · exact hne (h.eq_of_unfinished hget hold hfin hyfin)
  refine ⟨f', ?_, fun y hy hyopened => ?_, fun y hy hfresh => ?_, h.one_set hget hfin _,
    fun _ => hmsg, fun y hy hyfin => ?_, fun y hy hyfin => ?_⟩
  · exact runFrom_concat.2 ⟨f, h.replayed, OpenFile.replay_of_perform hperform⟩
  · obtain ⟨j, hj⟩ := List.mem_iff_getElem?.1 hy
    rcases cases_of_getElem?_set hj with ⟨-, rfl⟩ | ⟨hne, hold⟩
    · rw [hpos, ← hx]
    · exact absurd (hs.openings.eq_of_holds hold hsession (by rw [hyopened]; rfl)
        (by rw [hopened]; rfl)) hne
  · rcases List.mem_or_eq_of_mem_set hy with hy | rfl
    · exact h.fresh y hy hfresh
    · simp [Session.Pc.Fresh, hopened] at hfresh
  · exact absurd (hnone y hy) (by simp [hyfin])
  · exact absurd (hnone y hy) (by simp [hyfin])

theorem close (h : s.Serial f) {i : ℕ} {x : Session} :
    Driver.Serial { s with sessions := s.sessions.set i { x with pc := .set } } f := by
  refine h.sessions (fun y hy hopened => ?_) fun y hy hfresh => ?_
  · rcases List.mem_or_eq_of_mem_set hy with hy | rfl
    · exact h.position y hy hopened
    · cases hopened
  · rcases List.mem_or_eq_of_mem_set hy with hy | rfl
    · exact h.fresh y hy hfresh
    · simp [Session.Pc.Fresh] at hfresh

theorem moves (h : s.Serial f) (hs : s.Inv) (halone : s.Alone a) (hmoves : s.Moves a t) :
    ∃ f', t.Serial f' := by
  cases hmoves with
  | «open» hmodule =>
    refine ⟨f, h.sessions (fun y hy hopened => ?_) fun y hy hfresh => ?_⟩
    · rcases List.mem_append.1 hy with hy | hy
      · exact h.position y hy hopened
      · obtain rfl := List.mem_singleton.1 hy
        cases hopened
    · rcases List.mem_append.1 hy with hy | hy
      · exact h.fresh y hy hfresh
      · obtain rfl := List.mem_singleton.1 hy
        rfl
  | session i x x' alreadyOpen refs hget hin hturn =>
    by_cases hpc : x.pc = .success
    · obtain ⟨hpos, hopen, -⟩ := hturn.file
      rw [if_pos hpc]
      exact ⟨_, h.success hs hget hpc (hopen.2 hpc) hpos⟩
    · rw [if_neg hpc]
      exact ⟨f, h.session hget hpc hturn⟩
  | request i c x r hget hpc hbegin =>
    exact ⟨f, h.request hget hpc hbegin (halone i c rfl)⟩
  | outside k r hget hin hturn => exact ⟨f, { h with }⟩
  | call k r r' msg hget hin hturn => exact ⟨f, h.call hs hget hin hturn⟩
  | back k r x reply offset hget hpc hsession => exact h.back hs hget hpc hsession
  | close i x hget hpc hidle => exact ⟨f, h.close⟩
  | rmmod hlive hrefs => exact ⟨f, { h with }⟩
  | exit hgoing => exact ⟨f, { h with }⟩
  | free hmodule => exact ⟨f, { h with }⟩

end Driver.Serial

/-- **Calls that begin one at a time return what they return as a whole**, in their order, in every
such run: the history of calls and replies is one of whole calls on the device, from its zeros on.
Between two calls `msg` is what they have left, and the open file is at their position. -/
theorem Driver.serial_law {actions : List Action} {s : Driver}
    (h : runFrom Driver.step .init actions = some s)
    (halone : StepsMeet Driver.step Driver.Alone .init actions) :
    ∃ f, runFrom OpenFile.replay ⟨zeroed, 0⟩ s.history = some f ∧
      run ⟨zeroed, 0⟩ (s.history.map (·.1)) = some f ∧
      (∀ x ∈ s.sessions, x.pc = .opened → x.pos = f.pos) ∧
      ((∀ r ∈ s.calls, r.pc.isFinished) → s.msg = f.device.msg) := by
  have hstep : ∀ (s : Driver) (a : Action) (t : Driver), (∃ f, s.Serial f) ∧ s.Inv →
      s.Alone a → s.step a = some t → (∃ f, t.Serial f) ∧ t.Inv := by
    rintro s a t ⟨⟨f, hf⟩, hs⟩ ha ht
    refine ⟨?_, hs.step ht⟩
    obtain ⟨-, ⟨hmoves, -⟩ | ⟨-, -, -, rfl⟩⟩ := Driver.step_cases ht
    · exact hf.moves hs ha hmoves
    · exact ⟨f, { hf with }⟩
  obtain ⟨⟨f, hf⟩, -⟩ := runFrom_invariant_of_meet hstep ⟨⟨_, Driver.Serial.init⟩, .init⟩ halone h
  exact ⟨f, hf.replayed, run_of_replay hf.replayed, hf.position, hf.idle⟩

/-- A process opens the device. -/
def Driver.openTurns (i : ℕ) : List Action := [.open, .session i, .session i, .session i]

/-- A process opens the device, writes two bytes and closes it, and another one opens it. -/
def Driver.writeRun : List Action :=
  openTurns 0 ++ (.request 0 (.write (ascii "hi")) :: List.replicate 84 (.call 0) ++
    [.close 0, .session 0, .session 0, .session 0] ++ openTurns 1)

/-- The turns of a read of two bytes. -/
def Driver.readTurns : List Action := .request 1 (.read 4) :: List.replicate 7 (.call 1)

set_option maxRecDepth 20000 in
/-- A process reads what another one has written. -/
theorem Driver.serial_law_read : ∃ s, runFrom Driver.step .init (writeRun ++ readTurns) = some s ∧
    s.history = [(.reopen, .opened), (.write (ascii "hi"), .wrote 2), (.reopen, .opened),
      (.read 4, .read (ascii "hi"))] ∧
    ∃ f, runFrom OpenFile.replay ⟨zeroed, 0⟩ s.history = some f ∧
      run ⟨zeroed, 0⟩ (s.history.map (·.1)) = some f ∧ f.pos = 2 ∧ s.msg = f.device.msg := by
  obtain ⟨t, ht, htcalls⟩ : ∃ t, runFrom Driver.step .init (openTurns 0) = some t ∧ t.calls = [] :=
    ⟨_, rfl, rfl⟩
  obtain ⟨u, hu, hucalls⟩ : ∃ u, runFrom Driver.step .init writeRun = some u ∧
      u.calls = [⟨0, .write (ascii "hi"), 0, .finished (.wrote 2)⟩] := ⟨_, rfl, rfl⟩
  obtain ⟨s, hs, hcalls, hsessions, hhistory⟩ : ∃ s, runFrom Driver.step .init
      (writeRun ++ readTurns) = some s ∧
      s.calls.map (·.pc) = [.finished (.wrote 2), .finished (.read (ascii "hi"))] ∧
      s.sessions = [⟨.closed, false, 0⟩, ⟨.opened, true, 2⟩] ∧
      s.history = [(.reopen, .opened), (.write (ascii "hi"), .wrote 2), (.reopen, .opened),
        (.read 4, .read (ascii "hi"))] := ⟨_, rfl, rfl, rfl, rfl⟩
  have hwrite : StepsMeet Driver.step Driver.Alone .init writeRun :=
    (stepsMeet_of_forall (by simp [openTurns, Driver.Alone]) _).append ht
      ⟨by simp [Driver.Alone, htcalls],
        fun _ _ => stepsMeet_of_forall (by simp [openTurns, Driver.Alone]) _⟩
  have hread : StepsMeet Driver.step Driver.Alone .init (writeRun ++ readTurns) :=
    hwrite.append hu ⟨by simp [Driver.Alone, hucalls, Running.Pc.isFinished],
      fun _ _ => stepsMeet_of_forall (by simp [Driver.Alone]) _⟩
  obtain ⟨f, hreplay, hrun, hpos, hmsg⟩ := Driver.serial_law hs hread
  refine ⟨s, hs, hhistory, f, hreplay, hrun, ?_, hmsg fun r hr => ?_⟩
  · exact (hpos ⟨.opened, true, 2⟩ (by simp [hsessions]) rfl).symm
  · have hpc : r.pc ∈ s.calls.map (·.pc) := List.mem_map_of_mem hr
    rw [hcalls] at hpc
    rcases List.mem_pair.1 hpc with h | h <;> rw [h] <;> rfl

end EltexPractice.CharDevice
