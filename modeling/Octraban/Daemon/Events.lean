import Mathlib.Data.List.Basic
import Mathlib.Data.Int.Order.Basic

/-! The `events` table of the JS indexer with the constraints its migrations
declare, and the RPC's event log that is written into it. -/
namespace Octraban.Daemon

/-- Columns of a row that are fixed by the RPC event it was made from. -/
structure RawColumns where
  contractId : String
  ledger : Int
  txHash : String
  rawTopics : List String
  rawData : String
  deriving DecidableEq, Repr

/-- `topic` and `value` are the native values rendered as `decode` renders them. -/
structure RpcEvent where
  contractId : String
  ledger : Int
  txHash : String
  topic : List String
  value : String
  deriving DecidableEq, Repr

structure DecodedEvent where
  contractId : String
  function : String
  ledger : Int
  txHash : String
  description : String
  rawTopics : List String
  rawData : String
  deriving DecidableEq, Repr

def RpcEvent.raw (ev : RpcEvent) : RawColumns :=
  ⟨ev.contractId, ev.ledger, ev.txHash, ev.topic, ev.value⟩

def DecodedEvent.raw (ev : DecodedEvent) : RawColumns :=
  ⟨ev.contractId, ev.ledger, ev.txHash, ev.rawTopics, ev.rawData⟩

/-- Function name and text found for an event. Both depend on the contract
metadata stored at the time of the call, so two runs may differ, or throw. -/
abbrev Describe := RpcEvent → Option (String × String)

def decode (describe : Describe) (ev : RpcEvent) : Option DecodedEvent :=
  (describe ev).map fun (function, description) =>
    ⟨ev.contractId, function, ev.ledger, ev.txHash, description, ev.topic, ev.value⟩

theorem decode_raw {describe : Describe} (decoded : decode describe ev = some e) :
    e.raw = ev.raw := by
  obtain ⟨_, _, rfl⟩ := Option.map_eq_some_iff.mp decoded
  rfl

structure Row where
  seq : Nat
  event : DecodedEvent
  deriving DecidableEq, Repr

/-- Unique keys the migrations declare on `events`: `seq BIGSERIAL PRIMARY KEY`. -/
def uniqueKeys : List (Row → Row → Bool) := [fun old new => old.seq == new.seq]

/-- CHECK constraints of migration 006. -/
def checkDescription (e : DecodedEvent) : Bool :=
  0 < e.description.length && e.description.length ≤ 2048

structure EventsTable where
  rows : List Row
  nextSeq : Nat
  issued : ∀ row ∈ rows, row.seq < nextSeq

namespace EventsTable

def empty : EventsTable := ⟨[], 1, by simp⟩

def events (t : EventsTable) : List DecodedEvent := t.rows.map Row.event

/-- `INSERT … ON CONFLICT DO NOTHING`. The serial is drawn before the unique keys
are looked at; a violated CHECK throws. -/
def upsertEvent (t : EventsTable) (e : DecodedEvent) : Option EventsTable :=
  if checkDescription e then
    let row : Row := ⟨t.nextSeq, e⟩
    if t.rows.any fun old => uniqueKeys.any fun key => key old row then
      some ⟨t.rows, t.nextSeq + 1, fun old member => Nat.lt_succ_of_lt (t.issued old member)⟩
    else
      some ⟨t.rows ++ [row], t.nextSeq + 1, by
        intro old member
        rcases List.mem_append.mp member with member | member
        · exact Nat.lt_succ_of_lt (t.issued old member)
        · cases List.mem_singleton.mp member
          exact Nat.lt_succ_self _⟩
  else none

/-- `DELETE FROM events WHERE ledger >= $1`. -/
def deleteFrom (t : EventsTable) (forkLedger : Int) : EventsTable :=
  ⟨t.rows.filter fun row => row.event.ledger < forkLedger, t.nextSeq,
    fun row member => t.issued row (List.mem_filter.mp member).1⟩

/-- `SELECT COALESCE(MAX(ledger), 0) FROM events`. -/
def getMaxLedger (t : EventsTable) : Int :=
  match t.events with
  | [] => 0
  | e :: rest => rest.foldl (fun max e => if max < e.ledger then e.ledger else max) e.ledger

theorem foldl_max (rest : List DecodedEvent) (m : Int) :
    let max := rest.foldl (fun max e => if max < e.ledger then e.ledger else max) m
    m ≤ max ∧ (∀ e ∈ rest, e.ledger ≤ max) ∧ (max = m ∨ ∃ e ∈ rest, e.ledger = max) := by
  induction rest generalizing m with
  | nil => simp
  | cons e rest ih =>
    obtain ⟨least, bound, found⟩ := ih (if m < e.ledger then e.ledger else m)
    simp only [List.foldl_cons, List.mem_cons, forall_eq_or_imp, exists_eq_or_imp]
    grind

theorem ledger_le_max (t : EventsTable) : ∀ e ∈ t.events, e.ledger ≤ t.getMaxLedger := by
  rw [getMaxLedger]
  cases t.events with
  | nil => simp
  | cons first rest =>
    obtain ⟨least, bound, -⟩ := foldl_max rest first.ledger
    exact List.forall_mem_cons.mpr ⟨least, bound⟩

theorem max_stored (t : EventsTable) (positive : 0 < t.getMaxLedger) :
    ∃ e ∈ t.events, e.ledger = t.getMaxLedger := by
  rw [getMaxLedger] at positive ⊢
  cases stored : t.events with
  | nil =>
    rw [stored] at positive
    contradiction
  | cons first rest =>
    obtain ⟨-, -, same | ⟨e, member, same⟩⟩ := foldl_max rest first.ledger
    · exact ⟨first, List.mem_cons_self, same.symm⟩
    · exact ⟨e, List.mem_cons_of_mem _ member, same⟩

/-- A fresh serial never meets the only unique key, so DO NOTHING never applies. -/
theorem no_conflict (t : EventsTable) (e : DecodedEvent) :
    (t.rows.any fun old => uniqueKeys.any fun key => key old ⟨t.nextSeq, e⟩) = false := by
  simp only [uniqueKeys, List.any_cons, List.any_nil, Bool.or_false, List.any_eq_false, beq_iff_eq]
  intro old member
  exact Nat.ne_of_lt (t.issued old member)

theorem upsertEvent_events {t t' : EventsTable} {e : DecodedEvent}
    (inserted : t.upsertEvent e = some t') : t'.events = t.events ++ [e] := by
  simp only [upsertEvent, no_conflict] at inserted
  split at inserted
  · cases inserted
    simp [events]
  · contradiction

end EventsTable

/-- The RPC's events in order. Every ledger's events stand together, and ledger
numbers start at 1. -/
structure EventLog where
  events : List RpcEvent
  sorted : events.Pairwise fun a b => a.ledger ≤ b.ledger
  positive : ∀ ev ∈ events, 0 < ev.ledger

/-- PAGE_LIMIT of the daemon and of both back-fill scripts. -/
def PAGE_LIMIT : Nat := 200

/-- A request names a start ledger or the opaque cursor of the page before,
here the number of log events up to the end of that page. -/
inductive Position where
  | startLedger (ledger : Int)
  | cursor (passed : Nat)
  deriving DecidableEq, Repr

structure Response where
  events : List RpcEvent
  latestLedger : Int
  cursor : Nat

namespace EventLog

/-- What a node that has closed `height` can report. -/
def visible (log : EventLog) (height : Int) : List RpcEvent :=
  log.events.filter fun ev => ev.ledger ≤ height

def offset (log : EventLog) : Position → Nat
  | .startLedger ledger => (log.events.filter fun ev => ev.ledger < ledger).length
  | .cursor passed => passed

def getEvents (log : EventLog) (height : Int) (position : Position) : Response :=
  let page := ((log.visible height).drop (log.offset position)).take PAGE_LIMIT
  ⟨page, height, log.offset position + page.length⟩

def ofLedger (log : EventLog) (ledger : Int) : List RpcEvent :=
  log.events.filter fun ev => ev.ledger = ledger

end EventLog
end Octraban.Daemon
