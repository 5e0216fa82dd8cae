import Octraban.Daemon.Events
import Mathlib.Data.List.Perm.Basic

/-! The three writers of the `events` table: the daemon's `indexLedger`,
catchup.js and bulkLoader.js. A call stops at the first RPC, decode or database
call that fails; what it wrote before stays. -/
namespace Octraban.Daemon

/-- The loop over a page: `writes` is the number of database writes that still
succeed. The result has no writes left over when the loop threw. -/
def storeEvents (select : RpcEvent → Bool) (describe : Describe) :
    Nat → EventsTable → List RpcEvent → EventsTable × Option Nat
  | writes, t, [] => (t, some writes)
  | writes, t, ev :: rest =>
    if select ev then
      match decode describe ev, writes with
      | none, _ | _, 0 => (t, none)
      | some decoded, writes + 1 =>
        match t.upsertEvent decoded with
        | none => (t, none)
        | some t => storeEvents select describe writes t rest
    else storeEvents select describe writes t rest

/-- The `do … while (pageCursor)` loop; `answers` RPC calls succeed. -/
def storePages (rpc : Position → Response) (select : RpcEvent → Bool) (describe : Describe) :
    Nat → Position → Nat → EventsTable → EventsTable × Option Nat
  | 0, _, _, t => (t, none)
  | answers + 1, position, writes, t =>
    let res := rpc position
    match storeEvents select describe writes t res.events with
    | (t, none) => (t, none)
    | (t, some writes) =>
      if res.events.length = PAGE_LIMIT then
        storePages rpc select describe answers (.cursor res.cursor) writes t
      else (t, some writes)

/-- Everything the node reports from `ledger` on is stored. -/
def indexLedger (rpc : Position → Response) (describe : Describe) (answers writes : Nat)
    (ledger : Int) (t : EventsTable) : EventsTable × Option Nat :=
  storePages rpc (fun _ => true) describe answers (.startLedger ledger) writes t

/-- The same pages are read, but `ev.ledger !== ledger` is skipped. -/
def processLedger (rpc : Position → Response) (describe : Describe) (answers writes : Nat)
    (ledger : Int) (t : EventsTable) : EventsTable × Option Nat :=
  storePages rpc (fun ev => ev.ledger = ledger) describe answers (.startLedger ledger) writes t

/-- bulkLoader's page loop decodes without writing. -/
def fetchLedgerEvents (rpc : Position → Response) (describe : Describe) (ledger : Int) :
    Nat → Position → Option (List DecodedEvent)
  | 0, _ => none
  | answers + 1, position =>
    let res := rpc position
    ((res.events.filter fun ev => ev.ledger = ledger).mapM (decode describe)).bind fun events =>
      if res.events.length = PAGE_LIMIT then
        (fetchLedgerEvents rpc describe ledger answers (.cursor res.cursor)).map (events ++ ·)
      else some events

/-- One multi-row INSERT: every row is written or none is. -/
def batchInsert (events : List DecodedEvent) (t : EventsTable) : Option EventsTable :=
  events.foldlM EventsTable.upsertEvent t

inductive Path where
  | indexLedger
  | processLedger
  | batchInsert
  deriving DecidableEq, Repr

/-- One call of a writer with the environment it meets: the node's height and
the number of RPC answers and database writes it gets before a failure. -/
structure Ingestion where
  path : Path
  ledger : Int
  describe : Describe
  height : Int
  answers : Nat
  writes : Nat

variable (log : EventLog)

/-- The table the call leaves, and whether it returned without throwing. -/
def Ingestion.run (i : Ingestion) (t : EventsTable) : EventsTable × Bool :=
  match i.path with
  | .indexLedger =>
    (indexLedger (log.getEvents i.height) i.describe i.answers i.writes i.ledger t).map id Option.isSome
  | .processLedger =>
    (processLedger (log.getEvents i.height) i.describe i.answers i.writes i.ledger t).map id Option.isSome
  | .batchInsert =>
    match fetchLedgerEvents (log.getEvents i.height) i.describe i.ledger i.answers
        (.startLedger i.ledger) with
    | none => (t, false)
    | some [] => (t, true)
    | some (e :: rest) =>
      match i.writes, batchInsert (e :: rest) t with
      | 0, _ | _, none => (t, false)
      | _ + 1, some t => (t, true)

/-- The table takes the row made from the event. -/
def storable (describe : Describe) (ev : RpcEvent) : Bool := (decode describe ev).any checkDescription

/-- What the node lists from the call's ledger on. -/
def Ingestion.listing (i : Ingestion) : List RpcEvent :=
  (log.visible i.height).drop (log.offset (.startLedger i.ledger))

def Ingestion.select (i : Ingestion) (ev : RpcEvent) : Bool :=
  i.path = .indexLedger ∨ ev.ledger = i.ledger

/-- The events the call gets to store before a failure. The two loops store up to
the first event that cannot be; the bulk loader has to get through all pages. -/
def Ingestion.reached (i : Ingestion) : List RpcEvent :=
  if i.path = .batchInsert then
    let selected := (i.listing log).filter i.select
    if (i.listing log).length < i.answers * PAGE_LIMIT ∧ 0 < i.writes ∧
      selected.all (storable i.describe) then selected else []
  else
    ((((i.listing log).take (i.answers * PAGE_LIMIT)).filter i.select).take i.writes).takeWhile
      (storable i.describe)

/-- The call returns without an error; this does not depend on the table. -/
def Ingestion.returns (i : Ingestion) : Bool := (i.run log .empty).2

/-- The call asks for the events of `ledger`, and the node has closed it. -/
def Ingestion.Reads (i : Ingestion) (ledger : Int) : Prop :=
  ledger ≤ i.height ∧ if i.path = .indexLedger then i.ledger ≤ ledger else i.ledger = ledger

instance (i : Ingestion) (ledger : Int) : Decidable (i.Reads ledger) :=
  inferInstanceAs (Decidable (_ ∧ _))

def ofLedger (ledger : Int) (raws : List RawColumns) : List RawColumns :=
  raws.filter fun raw => raw.ledger = ledger

theorem EventLog.short_page (height : Int) (position : Position)
    (short : (log.getEvents height position).events.length ≠ PAGE_LIMIT) :
    (log.visible height).drop (log.offset position) = (log.getEvents height position).events := by
  have bound : ((log.visible height).drop (log.offset position)).length ≤ PAGE_LIMIT := by
    have taken : (((log.visible height).drop (log.offset position)).take PAGE_LIMIT).length = _ :=
      List.length_take
    change _ ≠ _ at short
    simp only [getEvents] at short
    omega
  exact (List.take_of_length_le bound).symm

/-- The events a call goes through when nothing fails. -/
def Ingestion.listed (i : Ingestion) : List RpcEvent := (i.listing log).filter i.select

theorem take_below {events : List RpcEvent} (sorted : events.Pairwise fun a b => a.ledger ≤ b.ledger)
    (ledger : Int) : events.take (events.filter fun ev => ev.ledger < ledger).length =
      events.filter fun ev => ev.ledger < ledger := by
  induction events with
  | nil => rfl
  | cons ev rest ih =>
    obtain ⟨least, sorted⟩ := List.pairwise_cons.mp sorted
    by_cases below : ev.ledger < ledger
    · rw [List.filter_cons_of_pos (by simpa using below), List.length_cons, List.take_succ_cons,
        ih sorted]
    · have none : (rest.filter fun ev => ev.ledger < ledger) = [] :=
        List.filter_eq_nil_iff.mpr fun other member => by
          simpa using Int.le_trans (not_lt.mp below) (least other member)
      rw [List.filter_cons_of_neg (by simpa using below), none]
      rfl

theorem EventLog.visible_prefix (height : Int) : log.visible height <+: log.events := by
  have same : log.visible height = log.events.filter fun ev => ev.ledger < height + 1 :=
    List.filter_congr fun ev _ => by simp only [Int.lt_add_one_iff]
  rw [same, ← take_below log.sorted]
  exact List.take_prefix _ _

end Octraban.Daemon
