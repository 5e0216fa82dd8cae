import Octraban.Core.Transition
import Octraban.Indexer.Network

/-! indexer.ts cut at its awaits: `syncToLatest` and `catchUp` run rounds of workers,
each in `processLedgerRange`. The workers of a failed round run on beside the next. -/
namespace Octraban.Indexer

structure IndexerConfig where
  indexerStartLedger : Nat
  indexerBatchSize : Nat
  indexerCatchupWorkers : Nat
  batch_pos : 0 < indexerBatchSize
  workers_pos : 0 < indexerCatchupWorkers

structure TransactionRow where
  hash : String
  ledgerSequence : Nat
  deriving DecidableEq

structure EventRow where
  id : String
  transactionHash : String
  contractAddress : String
  topics : List String
  data : String
  ledgerSequence : Nat
  deriving DecidableEq

/-- `i` is the event's index among the events fetched. -/
def LedgerEvent.eventId (event : LedgerEvent) (i : Nat) : String :=
  let positionKey := if event.pagingToken = "" then toString event.ledgerSequence ++ "-" ++ toString i
    else event.pagingToken
  event.transactionHash ++ "-" ++ positionKey

def LedgerEvent.row (event : LedgerEvent) (i : Nat) : EventRow :=
  ⟨event.eventId i, event.transactionHash, event.contractId, event.topics, event.data,
    event.ledgerSequence⟩

/-- The call a worker waits for. -/
inductive Phase (H : Type*) where
  | metadata (seq : Nat)
  | findPrev (seq : Nat) (ledgerMeta : LedgerMeta H)
  | reorgEvent (seq : Nat)
  | rollback (prevSeq : Nat)
  | reset (prevSeq : Nat)
  | upsertLedger (seq : Nat) (ledgerMeta : LedgerMeta H)
  | fetchEvents (offset : Nat) (events : List LedgerEvent)
  | findTx (i : Nat) (event : LedgerEvent) (rest : List LedgerEvent)
  | upsertTx (i : Nat) (event : LedgerEvent) (rest : List LedgerEvent)
  | upsertEvent (i : Nat) (event : LedgerEvent) (rest : List LedgerEvent)
  | authorize (i : Nat) (rest : List LedgerEvent)
  | done
  | failed

def Phase.isDone {H : Type*} : Phase H → Bool
  | .done => true
  | _ => false

def Phase.isFailed {H : Type*} : Phase H → Bool
  | .failed => true
  | _ => false

def Phase.ended {H : Type*} (phase : Phase H) : Bool := phase.isDone || phase.isFailed

/-- A call of `processLedgerRange`. -/
structure Worker (H : Type*) where
  start : Nat
  stop : Nat
  phase : Phase H

/-- What syncToLatest runs until it saves `stop`: the workers from number `base` on. -/
structure Round where
  target : Nat
  last : Nat
  stop : Nat
  base : Nat
  backfill : Bool
  returns : Bool
  deriving DecidableEq

/-- The call syncToLatest waits for. -/
inductive Sync where
  | idle
  | read (target : Nat)
  | gap (target last : Nat)
  | waiting (round : Round)
  | save (round : Round)
  | resolve (target : Nat)
  deriving DecidableEq

/-- `served` keeps which chain answered an event request for which range; nothing
the indexer does depends on it. -/
structure State (H : Type*) where
  chain : Chain
  served : List (Nat × Nat × Chain)
  ledgerCache : Nat → Option (LedgerMeta H)
  lastLedger : Option Nat
  ledgers : Nat → Option (LedgerMeta H)
  transactions : List TransactionRow
  events : List EventRow
  sync : Sync
  workers : List (Worker H)

variable {H : Type*}

/-- `for (let start = from; start <= to; start += size)`; `fuel` bounds the chunks. -/
def chunksFrom (size stop : Nat) : Nat → Nat → List (Nat × Nat)
  | 0, _ => []
  | fuel + 1, start =>
    if start ≤ stop then (start, min (start + size - 1) stop) :: chunksFrom size stop fuel (start + size)
    else []

def chunkRange (start stop n : Nat) : List (Nat × Nat) :=
  let total := stop + 1 - start
  let size := (total + n - 1) / n
  chunksFrom size stop total start

def Worker.begin (start stop : Nat) : Worker H :=
  ⟨start, stop, if start ≤ stop then .metadata start else .fetchEvents 0 []⟩

/-- `for (const event of events)`, from index `i`. -/
def process (i : Nat) : List LedgerEvent → Phase H
  | [] => .done
  | event :: rest => .findTx i event rest

namespace State
variable (hash : List Block → H) (s : State H)

/-- The row getLastIndexedLedger reads or creates. -/
def cursor (config : IndexerConfig) : Nat := s.lastLedger.getD config.indexerStartLedger

/-- Horizon, or the RPC node behind a cache when Horizon does not answer. -/
def fetchLedgerMetadata (seq : Nat) (fallback : Bool) : State H × Phase H :=
  if fallback then
    match s.ledgerCache seq with
    | some cached => (s, .findPrev seq cached)
    | none =>
      if seq ≤ s.chain.tip then
        let ledgerMeta := s.chain.ledgerMeta hash seq
        ({ s with ledgerCache := Function.update s.ledgerCache seq (some ledgerMeta) },
          .findPrev seq ledgerMeta)
      else (s, .failed)
  else if seq ≤ s.chain.tip then (s, .findPrev seq (s.chain.ledgerMeta hash seq))
  else (s, .failed)

/-- The reorg check: a stored previous ledger has to be the one the network names. -/
def findPrev [DecidableEq H] (seq : Nat) (ledgerMeta : LedgerMeta H) : Phase H :=
  match s.ledgers (seq - 1) with
  | some prevLedger =>
    if prevLedger.hash ≠ ledgerMeta.previousLedgerHash then .reorgEvent seq
    else .upsertLedger seq ledgerMeta
  | none => .upsertLedger seq ledgerMeta

/-- One transaction; a transaction that an event of another ledger refers to stays. -/
def rollbackLedger (prevSeq : Nat) : State H × Phase H :=
  let referenced := s.events.any fun event => event.ledgerSequence ≠ prevSeq &&
    s.transactions.any fun tx => tx.hash = event.transactionHash && tx.ledgerSequence = prevSeq
  if referenced then (s, .failed)
  else
    ({ s with
      ledgers := Function.update s.ledgers prevSeq none
      transactions := s.transactions.filter fun tx => tx.ledgerSequence ≠ prevSeq
      events := s.events.filter fun event => event.ledgerSequence ≠ prevSeq }, .reset prevSeq)

def upsertLedger (w : Worker H) (seq : Nat) (ledgerMeta : LedgerMeta H) : State H × Phase H :=
  ({ s with ledgers := Function.update s.ledgers seq (some ledgerMeta) },
    if seq < w.stop then .metadata (seq + 1) else .fetchEvents 0 [])

/-- One page. Without a continuation token in the response it is the last one. -/
def fetchEvents (w : Worker H) (offset : Nat) (events : List LedgerEvent) (fallback : Bool) :
    State H × Phase H :=
  let page := s.chain.getEvents w.start offset
  let s := { s with served := (w.start, w.stop, s.chain) :: s.served }
  if page.isEmpty then (s, process 0 events)
  else if page.all fun event => w.stop < event.ledgerSequence then (s, process 0 events)
  else
    let events := events ++ page.filter (inRange w.start w.stop)
    if page.length < EVENT_PAGE_SIZE then (s, process 0 events)
    else if fallback then (s, process 0 events)
    else (s, .fetchEvents (offset + page.length) events)

def findTx (i : Nat) (event : LedgerEvent) (rest : List LedgerEvent) : Phase H :=
  if s.transactions.any fun tx => tx.hash = event.transactionHash then .upsertEvent i event rest
  else .upsertTx i event rest

/-- `update: {}`; a new row refers to its ledger. -/
def upsertTx (i : Nat) (event : LedgerEvent) (rest : List LedgerEvent) : State H × Phase H :=
  if s.transactions.any fun tx => tx.hash = event.transactionHash then (s, .upsertEvent i event rest)
  else if (s.ledgers event.ledgerSequence).isSome then
    ({ s with transactions := ⟨event.transactionHash, event.ledgerSequence⟩ :: s.transactions },
      .upsertEvent i event rest)
  else (s, .failed)

/-- `update: {}`; a new row refers to its ledger and its transaction. -/
def upsertEvent (i : Nat) (event : LedgerEvent) (rest : List LedgerEvent) : State H × Phase H :=
  if s.events.any fun row => row.id = event.eventId i then (s, .authorize i rest)
  else if (s.ledgers event.ledgerSequence).isSome &&
      s.transactions.any fun tx => tx.hash = event.transactionHash then
    ({ s with events := event.row i :: s.events }, .authorize i rest)
  else (s, .failed)

/-- The call of a worker answers; `fallback` is about the two calls of rpc.ts. -/
def work [DecidableEq H] (w : Worker H) (fallback : Bool) : State H × Phase H :=
  match w.phase with
  | .metadata seq => s.fetchLedgerMetadata hash seq fallback
  | .findPrev seq ledgerMeta => (s, s.findPrev seq ledgerMeta)
  | .reorgEvent seq => (s, .rollback (seq - 1))
  | .rollback prevSeq => s.rollbackLedger prevSeq
  | .reset prevSeq => ({ s with lastLedger := some (prevSeq - 1) }, .failed)
  | .upsertLedger seq ledgerMeta => s.upsertLedger w seq ledgerMeta
  | .fetchEvents offset events => s.fetchEvents w offset events fallback
  | .findTx i event rest => (s, s.findTx i event rest)
  | .upsertTx i event rest => s.upsertTx i event rest
  | .upsertEvent i event rest => s.upsertEvent i event rest
  | .authorize i rest => (s, process (i + 1) rest)
  | .done => (s, .done)
  | .failed => (s, .failed)

def setPhase (k : Nat) (w : Worker H) (phase : Phase H) : State H :=
  { s with workers := s.workers.set k { w with phase := phase } }

def spawn (round : Round) (chunks : List (Nat × Nat)) : State H :=
  { s with
    workers := s.workers ++ chunks.map fun (start, stop) => Worker.begin start stop
    sync := .waiting { round with base := s.workers.length } }

/-- One step of `syncToLatest`, and of the `catchUp` it awaits. -/
def orchestrate (config : IndexerConfig) : Option (State H) :=
  match s.sync with
  | .idle => none
  | .read target =>
    let last := s.cursor config
    let s := { s with lastLedger := some last }
    if target ≤ last then some { s with sync := .idle }
    else if last + 1 < target then some { s with sync := .gap target last }
    else if config.indexerBatchSize < target - last ∧ 1 < config.indexerCatchupWorkers then
      some (s.spawn ⟨target, last, target, 0, false, true⟩
        (chunkRange (last + 1) target config.indexerCatchupWorkers))
    else
      let stop := min (last + config.indexerBatchSize) target
      some (s.spawn ⟨target, last, stop, 0, false, false⟩ [(last + 1, stop)])
  | .gap target last =>
    let gapStart := last + 1
    let gapEnd := target - 1
    let chunks :=
      if config.indexerBatchSize ≤ gapEnd - gapStart ∧ 1 < config.indexerCatchupWorkers then
        chunkRange gapStart gapEnd config.indexerCatchupWorkers
      else [(gapStart, gapEnd)]
    some (s.spawn ⟨target, last, gapEnd, 0, true, false⟩ chunks)
  | .waiting round =>
    let members := s.workers.drop round.base
    if members.all fun w => w.phase.isDone then some { s with sync := .save round }
    else if members.any fun w => w.phase.isFailed then some { s with sync := .idle }
    else none
  | .save round =>
    let sync := if round.backfill then .resolve round.target
      else if round.returns then .idle else .read round.target
    some { s with lastLedger := some round.stop, sync := sync }
  | .resolve target => some { s with sync := .read target }

end State

/-- `expire` is about the cache of `getLedger`. -/
inductive Act where
  | sync (target : Nat)
  | orchestrate
  | orchestrateFails
  | work (k : Nat) (fallback : Bool)
  | fails (k : Nat)
  | reorg (fork : Nat) (block : Nat → Block) (tip : Nat)
  | expire (seq : Nat)

variable (hash : List Block → H) (config : IndexerConfig) [DecidableEq H]

def step (s : State H) : Act → Option (State H)
  | .sync target => if s.sync = .idle then some { s with sync := .read target } else none
  | .orchestrate => s.orchestrate config
  | .orchestrateFails =>
    match s.sync with
    | .idle | .waiting _ => none
    | .read _ | .gap .. | .save _ | .resolve _ => some { s with sync := .idle }
  | .work k fallback =>
    s.workers[k]?.bind fun w =>
      if w.phase.ended then none
      else
        let (s, phase) := s.work hash w fallback
        some (s.setPhase k w phase)
  | .fails k =>
    s.workers[k]?.bind fun w => if w.phase.ended then none else some (s.setPhase k w .failed)
  | .reorg fork block tip =>
    if fork ≤ s.chain.tip + 1 then some { s with chain := s.chain.reorg fork block tip } else none
  | .expire seq => some { s with ledgerCache := Function.update s.ledgerCache seq none }

/-- Nothing is indexed yet. -/
def State.initial (chain : Chain) : State H :=
  ⟨chain, [], fun _ => none, none, fun _ => none, [], [], .idle, []⟩

def system : Transition.System (State H) Act where
  initial s := ∃ chain, s = .initial chain
  step := step hash config

end Octraban.Indexer
