import EltexPractice.UdpEcho.Numbering

/-!
# Who is numbered

`reset_client` sets a counter to zero and keeps the slot, so the 128 slots go to the first 128
endpoints that send a message: an endpoint is numbered when fewer than 128 others sent a message
before its first one (`reply_capacity`). The number of endpoints that are active at the moment
does not decide it (`not_servesActive`): 128 endpoints may come and go and leave no slot for the
next one.
-/

namespace EltexPractice.UdpEcho

open CString Sessions

/-- The reply to a message carries the number the sessions dictate. -/
theorem reply_number {serverPort : ℕ} (buffer : Bytes) (history : List (Packet serverPort × Bool))
    (p : Packet serverPort) (hlen : history.length + 1 < 2 ^ 31) (hmsg : ¬ p.IsShutdown) :
    ∃ r, (serverStep serverPort (serve buffer history) p.bytes true).2 = some r ∧
      r.Answers p (number (events history) p.endpoint) := by
  have hevents : (events history).length + 1 < 2 ^ 31 := by rwa [events, List.length_map]
  have hreply := ((represents_serve buffer history).next p true).2
  rw [if_neg hmsg] at hreply
  rw [hreply]
  exact sendRawReply_answers p (number_lt hevents)

/-- **Capacity of the table**: a message is answered with the exact number, at least `1`, when
fewer than 128 endpoints sent a message before the first one of its endpoint, and with `0`
otherwise. -/
theorem reply_capacity {serverPort : ℕ} (buffer : Bytes)
    (history : List (Packet serverPort × Bool)) (p : Packet serverPort)
    (hlen : history.length + 1 < 2 ^ 31) (hmsg : ¬ p.IsShutdown) :
    let exact := since p.endpoint (events history ++ [p.event])
    let earlier := senders ((events history).takeWhile (· ≠ .message p.endpoint))
    1 ≤ exact ∧ ∃ r, (serverStep serverPort (serve buffer history) p.bytes true).2 = some r ∧
      r.Answers p (if earlier.length < 128 then exact else 0) := by
  intro exact earlier
  have hevent : p.event = .message p.endpoint := if_neg hmsg
  refine ⟨?_, ?_⟩
  · change 1 ≤ since p.endpoint (events history ++ [p.event])
    rw [hevent, since_concat_message]
    exact Nat.le_add_left 1 _
  · obtain ⟨r, hr, hanswers⟩ := reply_number buffer history p hlen hmsg
    refine ⟨r, hr, ?_⟩
    have hiff : p.endpoint ∈ served maxClients (events history ++ [.message p.endpoint]) ↔
        earlier.length < 128 := mem_served_concat_message
    change r.Answers p
      (if earlier.length < 128 then since p.endpoint (events history ++ [p.event]) else 0)
    rw [number] at hanswers
    simp only [hiff] at hanswers
    rwa [hevent]

theorem reply_capacity_sample :
    let p := samplePacket 4001 (ascii "ping") (by decide)
    let q := samplePacket 4002 (ascii "ping") (by decide)
    ∃ r, (serverStep 5000 (serve (fun _ => 0) [(p, true), (q, true), (p, true)]) p.bytes true).2 =
      some r ∧ r.Answers p 3 := by
  intro p q
  have h := (reply_capacity (fun _ => 0) [(p, true), (q, true), (p, true)] p (by simp)
    (by decide)).2
  have hnumber : (if (senders ((events [(p, true), (q, true), (p, true)]).takeWhile
      (· ≠ .message p.endpoint))).length < 128 then
      since p.endpoint (events [(p, true), (q, true), (p, true)] ++ [p.event]) else 0) = 3 := by
    decide
  rwa [hnumber] at h

/-! ## Endpoints that come and go -/

/-- The other endpoints that are active: they sent a message after their last shutdown. -/
def activeOthers (h : History) (e : Endpoint) : List Endpoint :=
  (senders h).filter fun e' => e' ≠ e ∧ 0 < since e' h

/-- Every message is answered with its exact number while fewer than 128 other endpoints are
active. -/
def ServesActive (serverPort : ℕ) : Prop :=
  ∀ (buffer : Bytes) (history : List (Packet serverPort × Bool)) (p : Packet serverPort),
    history.length + 1 < 2 ^ 31 → ¬ p.IsShutdown →
    (activeOthers (events history) p.endpoint).length < 128 →
    ∃ r, (serverStep serverPort (serve buffer history) p.bytes true).2 = some r ∧
      r.Answers p (since p.endpoint (events history ++ [p.event]))

/-- A message and a shutdown from each of the first `n` ports. -/
def visits : ℕ → List (Packet 5000 × Bool)
  | 0 => []
  | n + 1 => visits n ++ [(samplePacket n (ascii "hi") (by decide), true),
      (samplePacket n shutdownMsg (by decide), true)]

theorem length_visits (n : ℕ) : (visits n).length = 2 * n := by
  induction n with
  | zero => rfl
  | succ n ih =>
    rw [visits, List.length_append, ih]
    rfl

/-- The endpoint of a port of the sample host. -/
def visitor (n : ℕ) : Endpoint := (leValue [10, 0, 0, 2], n)

theorem endpoint_samplePacket {n : ℕ} (hn : n < 65536) (payload : List UInt8)
    (hlen : payload.length ≤ 1000) : (samplePacket n payload hlen).endpoint = visitor n := by
  refine Prod.ext rfl ?_
  exact (udpField_sample n payload.length payload).1.trans (ntohs_leValue_be16 hn)

theorem text_samplePacket (n : ℕ) {payload : List UInt8} (hlen : payload.length ≤ 1000)
    (hzero : 0 ∉ payload) : (samplePacket n payload hlen).text = payload := by
  have htext : (samplePacket n payload hlen).text =
      cstr (((sampleHeader n payload.length ++ payload).drop
        (ipHdrLen (sampleHeader n payload.length ++ payload) + 8)).take
          (udpField (sampleHeader n payload.length ++ payload) 4 - 8)) := rfl
  have hdrop : (sampleHeader n payload.length ++ payload).drop 28 = payload := rfl
  rw [htext, ipHdrLen_sample, (udpField_sample _ _ _).2.2, ntohs_leValue_be16 (by omega), hdrop,
    Nat.add_sub_cancel_left, List.take_length, cstr_eq_self hzero]

/-- The message of a visitor, and its shutdown. -/
theorem event_samplePacket {n : ℕ} (hn : n < 65536) {payload : List UInt8}
    (hlen : payload.length ≤ 1000) (hzero : 0 ∉ payload) :
    (samplePacket n payload hlen).event =
      if payload = shutdownMsg then .shutdown (visitor n) else .message (visitor n) := by
  simp only [Packet.event, Packet.IsShutdown, text_samplePacket n hlen hzero,
    endpoint_samplePacket hn]

theorem events_visits {n : ℕ} (hn : n < 65536) :
    events (visits (n + 1)) = events (visits n) ++ [.message (visitor n)] ++
      [.shutdown (visitor n)] := by
  rw [visits, events, List.map_append, List.map_cons, List.map_cons, List.map_nil,
    event_samplePacket hn _ (by decide), event_samplePacket hn _ (by decide), if_neg (by decide),
    if_pos rfl, List.append_assoc]
  rfl

theorem visitor_inj {m n : ℕ} : visitor m = visitor n ↔ m = n := by
  simp [visitor]

/-- After `n` visits there are `n` senders and no message to count. -/
theorem sessions_visits {n : ℕ} (hn : n ≤ 65536) :
    senders (events (visits n)) = (List.range n).map visitor ∧
      ∀ e, since e (events (visits n)) = 0 := by
  induction n with
  | zero => exact ⟨rfl, fun _ => rfl⟩
  | succ n ih =>
    obtain ⟨hsenders, hsince⟩ := ih (by omega)
    rw [events_visits (by omega)]
    refine ⟨?_, fun e => ?_⟩
    · have hnew : visitor n ∉ (List.range n).map visitor := by
        rw [List.mem_map]
        rintro ⟨m, hm, heq⟩
        rw [visitor_inj] at heq
        exact absurd (List.mem_range.1 hm) (by omega)
      rw [senders_concat_shutdown, senders_concat_message, hsenders, if_neg hnew,
        List.range_succ, List.map_append, List.map_singleton]
    · rcases eq_or_ne (visitor n) e with rfl | hne
      · exact since_concat_shutdown _ _
      · rw [since_concat_of_ne (x := .shutdown (visitor n)) _ hne,
          since_concat_of_ne (x := .message (visitor n)) _ hne, hsince]

/-- 128 endpoints send a message and shut down; the next one is not numbered. -/
theorem not_servesActive : ¬ ServesActive 5000 := by
  intro hserves
  obtain ⟨hsenders, hsince⟩ := sessions_visits (show 128 ≤ 65536 by decide)
  have hlen : (visits 128).length + 1 < 2 ^ 31 := by rw [length_visits]; decide
  have hmsg : ¬ (samplePacket 128 (ascii "hi") (by decide)).IsShutdown := by decide
  have hidle : activeOthers (events (visits 128))
      (samplePacket 128 (ascii "hi") (by decide)).endpoint = [] := by
    refine List.filter_eq_nil_iff.2 fun e _ => ?_
    simp [hsince e]
  obtain ⟨r, hr, hexact⟩ := hserves (fun _ => 0) (visits 128)
    (samplePacket 128 (ascii "hi") (by decide)) hlen hmsg (by rw [hidle]; decide)
  obtain ⟨r', hr', hnumber⟩ := reply_number (fun _ => 0) (visits 128)
    (samplePacket 128 (ascii "hi") (by decide)) hlen hmsg
  obtain rfl := Option.some.inj (hr.symm.trans hr')
  have hone : since (samplePacket 128 (ascii "hi") (by decide)).endpoint (events (visits 128) ++
      [(samplePacket 128 (ascii "hi") (by decide)).event]) = 1 := by
    rw [Packet.event, if_neg hmsg, since_concat_message, hsince]
  have hzero : number (events (visits 128))
      (samplePacket 128 (ascii "hi") (by decide)).endpoint = 0 := by
    rw [number, if_neg]
    rw [endpoint_samplePacket (by decide), served, senders_concat_message, hsenders]
    decide
  rw [hone] at hexact
  rw [hzero] at hnumber
  have htext := hexact.payload.symm.trans hnumber.payload
  rw [List.append_cancel_left_eq] at htext
  exact absurd htext (by decide)

end EltexPractice.UdpEcho
