import EltexPractice.UdpChat.Packet

/-!
# Suppression of one's own packets

A participant knows its own packets by the process number in them. Process numbers are unique
within one host only (`Participants`), so a packet of another participant is taken for an echo
exactly when that participant, on another host, has the same number: `echoLaw_iff`.
-/

namespace EltexPractice.UdpChat

/-- Any number of participants on any hosts; `host_pid` is what the kernels promise. -/
structure Participants (ι H : Type*) where
  host : ι → H
  pid : ι → Int32
  nickname : ι → List UInt8
  host_pid : ∀ i j, host i = host j → pid i = pid j → i = j

namespace Participants

variable {ι H : Type*} (P : Participants ι H)

/-- The datagram of a `send_packet` of the participant `i`. -/
def datagram (i : ι) (type : MsgType) (text : Option (List UInt8)) : List UInt8 :=
  (sendPacket (P.pid i) type (P.nickname i) text).bytes

/-- What the participant `j` prints when a datagram is delivered to it. -/
def delivered (j : ι) (stale : Bytes) (datagram : List UInt8) : List UInt8 :=
  handleIncomingPacket (P.pid j) stale (some datagram)

/-- The packets of `i` are treated rightly by `j`: dropped exactly when `j` is `i`, and displayed
when it is not. -/
def EchoLaw (i j : ι) : Prop :=
  ∀ type text stale,
    (P.delivered j stale (P.datagram i type text) = [] ↔ i = j) ∧
      (i ≠ j → P.delivered j stale (P.datagram i type text) =
        shown (P.pid i) type (P.nickname i) text)

theorem delivered_datagram (i j : ι) (type : MsgType) (text : Option (List UInt8))
    (stale : Bytes) : P.delivered j stale (P.datagram i type text) =
      if P.pid i = P.pid j then [] else shown (P.pid i) type (P.nickname i) text :=
  handleIncomingPacket_sendPacket (P.pid j) (P.pid i) stale type (P.nickname i) text

/-- A packet is dropped exactly when the two numbers agree. -/
theorem delivered_eq_nil {i j : ι} {type : MsgType} {text : Option (List UInt8)} {stale : Bytes} :
    P.delivered j stale (P.datagram i type text) = [] ↔ P.pid i = P.pid j := by
  rw [delivered_datagram]
  split
  · rename_i h
    simp [h]
  · rename_i h
    simp [h, shown, CString.ascii]

/-- **The echo law between two participants**: it holds exactly when they do not, on different
hosts, have the same process number. -/
theorem echoLaw_iff {ι H : Type*} (P : Participants ι H) (i j : ι) :
    P.EchoLaw i j ↔ (P.host i ≠ P.host j → P.pid i ≠ P.pid j) := by
  constructor
  · intro h hhost hpid
    obtain rfl := (h .join none (fun _ => 0)).1.1 (P.delivered_eq_nil.2 hpid)
    exact hhost rfl
  · intro h type text stale
    have hsame : P.pid i = P.pid j → i = j := by
      intro hpid
      by_cases hhost : P.host i = P.host j
      · exact P.host_pid i j hhost hpid
      · exact absurd hpid (h hhost)
    refine ⟨⟨fun hnil => hsame (P.delivered_eq_nil.1 hnil), ?_⟩, fun hne => ?_⟩
    · rintro rfl
      exact P.delivered_eq_nil.2 rfl
    · rw [delivered_datagram, if_neg fun hpid => hne (hsame hpid)]

/-- Two participants, each the process 4242 of its host. -/
def twoHosts : Participants Bool Bool where
  host i := i
  pid _ := 4242
  nickname i := if i then CString.ascii "ann" else CString.ascii "bob"
  host_pid _ _ hhost _ := hhost

/-- A packet of the one participant of `twoHosts` is dropped by the other. -/
theorem not_echoLaw_twoHosts : ¬ ∀ i j, twoHosts.EchoLaw i j := by
  intro h
  have hnil : twoHosts.delivered false (fun _ => 0) (twoHosts.datagram true .join none) = [] :=
    twoHosts.delivered_eq_nil.2 rfl
  cases (h true false .join none fun _ => 0).1.1 hnil

end Participants

end EltexPractice.UdpChat
