import EltexPractice.Foundations.Sessions
import EltexPractice.UdpEcho.Server

/-!
# The client table counts sessions

The table of client records refines the abstract sessions: after any history it holds one record
for each party served, in the order of their first messages, with the number of its messages since
its last shutdown (`Represents`). `resetClient` is a shutdown of the party (`Represents.reset`),
`Found.increment` a message (`Represents.count`).
-/

namespace EltexPractice.UdpEcho

open Sessions

/-- An endpoint: the `s_addr` and the port. -/
abbrev Endpoint := ℕ × ℕ

/-- A history of the endpoints. -/
abbrev History := List (Event Endpoint)

/-- The record of an endpoint after a history. -/
def record (h : History) (e : Endpoint) : ClientRecord := ⟨e.1, e.2, toInt (since e h)⟩

/-- The endpoint of a record. -/
def ClientRecord.endpoint (r : ClientRecord) : Endpoint := (r.ip, r.port)

/-- The table holds the records of the endpoints served. -/
def Represents (db : ClientDb) (h : History) : Prop :=
  db.toList = (served maxClients h).map (record h)

/-- The table and the index are ready for a message of `e` after `h`. -/
structure Found.Covers (found : Found) (h : History) (e : Endpoint) : Prop where
  list : found.db.toList = (served maxClients (h ++ [.message e])).map (record h)
  idx : (∃ i, found.idx = some i ∧ (served maxClients (h ++ [.message e]))[i.1]? = some e) ∨
    (found.idx = none ∧ e ∉ served maxClients (h ++ [.message e]))

theorem represents_init : Represents initClientDb [] := Table.toList_empty _

@[simp] theorem record_endpoint (h : History) (e : Endpoint) : (record h e).endpoint = e := rfl

theorem record_is {h : History} {e e' : Endpoint} : (record h e').is e.1 e.2 = true ↔ e' = e := by
  simp [ClientRecord.is, record, Prod.ext_iff]

/-- Events of `e` leave the records of the others alone. -/
theorem record_concat_of_ne {h : History} {x : Event Endpoint} {e : Endpoint} (hx : x.party ≠ e) :
    record (h ++ [x]) e = record h e := by
  rw [record, since_concat_of_ne h hx, record]

namespace Represents

variable {db : ClientDb} {h : History}

theorem search_eq_none (hr : Represents db h) {e : Endpoint}
    (hs : db.search (·.is e.1 e.2) = none) : e ∉ served maxClients h := by
  intro he
  have hmem : record h e ∈ db.toList := by
    rw [hr]
    exact List.mem_map_of_mem he
  have hnot := Table.search_eq_none.1 hs _ hmem
  rw [record_is.2 rfl] at hnot
  cases hnot

theorem search_eq_some (hr : Represents db h) {e : Endpoint} {i : ℕ}
    (hs : db.search (·.is e.1 e.2) = some i) : (served maxClients h)[i]? = some e := by
  obtain ⟨hi, hp⟩ := Table.search_spec hs
  have hi' : i < (served maxClients h).length := by
    have := congrArg List.length hr
    rw [List.length_map] at this
    omega
  have hrec : db.toList[i] = record h (served maxClients h)[i] := by
    simp only [show db.toList = _ from hr, List.getElem_map]
  rw [hrec, record_is] at hp
  rw [List.getElem?_eq_getElem hi', hp]

/-- **A reset is a shutdown** of the endpoint. -/
theorem reset (hr : Represents db h) (e : Endpoint) :
    Represents (resetClient db e.1 e.2) (h ++ [.shutdown e]) := by
  rw [Represents, served_concat_shutdown, resetClient]
  split
  · rename_i i hs
    rw [Table.toList_modify, hr]
    refine OrderedSet.modify_map (nodup_served _ _) (hr.search_eq_some hs) ?_ fun e' he' => ?_
    · rw [record, since_concat_shutdown, record]
      rfl
    · exact record_concat_of_ne fun heq => he' heq.symm
  · rename_i hs
    rw [hr]
    refine List.map_congr_left fun e' he' => (record_concat_of_ne ?_).symm
    rintro rfl
    exact hr.search_eq_none hs he'

theorem length_served (hr : Represents db h) : (served maxClients h).length = db.count := by
  rw [← db.length_toList, hr, List.length_map]

/-- The lookup before a message makes room for the endpoints served after it. -/
theorem findOrCreate (hr : Represents db h) (e : Endpoint) :
    (findOrCreateClient db e.1 e.2).Covers h e := by
  rw [findOrCreateClient]
  split
  · rename_i i hs
    have hi := hr.search_eq_some hs
    have hserved : served maxClients (h ++ [.message e]) = served maxClients h := by
      rw [served_concat_message, OrderedSet.insert_of_mem (List.mem_of_getElem? hi)]
    exact ⟨hserved ▸ hr, Or.inl ⟨_, rfl, hserved ▸ hi⟩⟩
  · rename_i hs
    have he := hr.search_eq_none hs
    split
    · rename_i hroom
      rw [← hr.length_served] at hroom
      have hnew : record h e = ⟨e.1, e.2, 0⟩ := by
        rw [record, since_eq_zero fun hmem => he (served_eq_senders hroom ▸ hmem)]
        rfl
      have hserved : served maxClients (h ++ [.message e]) = served maxClients h ++ [e] := by
        rw [served_concat_message, OrderedSet.insert_of_notMem he hroom]
      refine ⟨?_, Or.inl ⟨_, rfl, ?_⟩⟩
      · rw [hserved, Table.toList_push, hr, List.map_append, List.map_singleton, hnew]
      · change (served maxClients (h ++ [.message e]))[db.count]? = some e
        rw [hserved, ← hr.length_served, List.getElem?_concat_length]
    · rename_i hfull
      have hserved : served maxClients (h ++ [.message e]) = served maxClients h := by
        rw [served_concat_message, OrderedSet.insert_of_full e (by rw [hr.length_served]; omega)]
      exact ⟨hserved ▸ hr, Or.inr ⟨rfl, hserved ▸ he⟩⟩

/-- **A counted message** is a message of the endpoint, and its number is the count of the
endpoint's messages when the endpoint is served, `0` otherwise. -/
theorem count (hr : Represents db h) (e : Endpoint) :
    Represents (findOrCreateClient db e.1 e.2).increment.1 (h ++ [.message e]) ∧
      (findOrCreateClient db e.1 e.2).increment.2 =
        if e ∈ served maxClients (h ++ [.message e]) then toInt (since e (h ++ [.message e]))
        else 0 := by
  obtain ⟨hlist, hidx⟩ := hr.findOrCreate e
  generalize findOrCreateClient db e.1 e.2 = found at hlist hidx ⊢
  have hothers : ∀ e', e' ≠ e → record (h ++ [.message e]) e' = record h e' := fun e' he' =>
    record_concat_of_ne fun heq => he' heq.symm
  unfold Found.increment Represents
  obtain ⟨i, hi, he⟩ | ⟨hnone, he⟩ := hidx
  · have hcount : toInt ((record h e).messageCount + 1) =
        toInt (since e (h ++ [.message e])) := by
      rw [record, since_concat_message, toInt, toInt, Int.bmod_add_bmod, Nat.cast_add_one, toInt]
    have hslot : found.db.slots[(⟨i, found.db.lt_cap i.2⟩ : Fin maxClients)] = record h e := by
      have hlt : i.1 < found.db.toList.length := by simp
      have hget : found.db.toList[i.1]? = some (record h e) := by
        rw [hlist, List.getElem?_map, he, Option.map_some]
      rw [List.getElem?_eq_getElem hlt, Table.getElem_toList _ _ _ (found.db.lt_cap i.2)] at hget
      exact Option.some.inj hget
    simp only [hi, hslot]
    rw [if_pos (List.mem_of_getElem? he), Table.toList_modify, hlist]
    refine ⟨OrderedSet.modify_map (nodup_served _ _) he ?_ hothers, hcount⟩
    rw [record, ← hcount]
    rfl
  · simp only [hnone]
    rw [if_neg he, hlist]
    refine ⟨List.map_congr_left fun e' he' => (hothers e' ?_).symm, rfl⟩
    rintro rfl
    exact he he'

end Represents

end EltexPractice.UdpEcho
