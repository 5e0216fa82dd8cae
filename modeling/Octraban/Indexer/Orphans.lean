import Octraban.Indexer.Cursor
import Mathlib.Data.Nat.Init

/-! No orphaned rows: once a single worker has caught up with the network, every
row up to the cursor is the network's, as long as no Ledger row gets the network's
hash while rows of another ledger stand beside it. -/
namespace Octraban.Indexer

variable {H : Type*} {hash : List Block → H} {config : IndexerConfig}

namespace Chain
variable (hash : List Block → H) (c : Chain) {d : Chain} {n : Nat} {m : LedgerMeta H}

/-- The metadata are those of the network's ledger. -/
def Has (n : Nat) (m : LedgerMeta H) : Prop := n ≤ c.tip ∧ m.hash = (c.ledgerMeta hash n).hash

/-- Some chain had the ledger. -/
def Known (n : Nat) (m : LedgerMeta H) : Prop := ∃ c : Chain, m = c.ledgerMeta hash n

variable {hash c}

theorem upTo_succ : c.upTo (n + 1) = c.upTo n ++ [c.block n] := by
  rw [upTo, List.range_succ, List.map_append]
  rfl

/-- A hash commits to the ledgers before it. -/
theorem ledgerMeta_of_hash (injective : Function.Injective hash)
    (same : (c.ledgerMeta hash n).hash = (d.ledgerMeta hash n).hash) :
    c.ledgerMeta hash n = d.ledgerMeta hash n := by
  have blocks : c.upTo (n + 1) = d.upTo (n + 1) := injective same
  have before : c.upTo n = d.upTo n := by
    rw [upTo_succ, upTo_succ] at blocks
    exact List.append_inj_left' blocks rfl
  rw [ledgerMeta, ledgerMeta, blocks, before]

theorem Has.eq (has : c.Has hash n m) (injective : Function.Injective hash) (known : Known hash n m) :
    m = c.ledgerMeta hash n := by
  obtain ⟨d, rfl⟩ := known
  exact ledgerMeta_of_hash injective has.2

/-- The ledgers below the fork stay. -/
theorem reorg_block {fork tip : Nat} {block : Nat → Block} (below : n < fork) :
    (c.reorg fork block tip).block n = c.block n := if_pos below

theorem reorg_ledgerMeta {fork tip : Nat} {block : Nat → Block} (below : n < fork) :
    (c.reorg fork block tip).ledgerMeta hash n = c.ledgerMeta hash n := by
  have blocks : ∀ k ≤ n + 1, (c.reorg fork block tip).upTo k = c.upTo k := by
    intro k bound
    apply List.map_congr_left
    intro j listed
    have small := List.mem_range.mp listed
    exact reorg_block (by omega)
  rw [ledgerMeta, ledgerMeta, blocks (n + 1) (Nat.le_refl _), blocks n (Nat.le_succ n)]

theorem reorg_eventsAt {fork tip : Nat} {block : Nat → Block} (below : n < fork) (before : n ≤ c.tip)
    (after : n ≤ tip) : (c.reorg fork block tip).eventsAt n = c.eventsAt n := by
  have exists_ : n ≤ (c.reorg fork block tip).tip := after
  rw [eventsAt, eventsAt, if_pos before, if_pos exists_, reorg_block below]

/-- Below the fork the network had the ledger already. -/
theorem Has.before_reorg {fork tip : Nat} {block : Nat → Block} (within : fork ≤ c.tip + 1)
    (below : n < fork) (has : (c.reorg fork block tip).Has hash n m) :
    c.Has hash n m ∧ (c.reorg fork block tip).eventsAt n = c.eventsAt n := by
  obtain ⟨exists_, same⟩ := has
  rw [reorg_ledgerMeta below] at same
  have before : n ≤ c.tip := by omega
  exact ⟨⟨before, same⟩, reorg_eventsAt below before exists_⟩

end Chain

/-- The events a worker has fetched and not stored yet. -/
def Phase.pending : Phase H → List LedgerEvent
  | .fetchEvents _ events => events
  | .findTx _ event rest | .upsertTx _ event rest | .upsertEvent _ event rest => event :: rest
  | .authorize _ rest => rest
  | .metadata _ | .findPrev .. | .reorgEvent _ | .rollback _ | .reset _ | .upsertLedger .. | .done
  | .failed => []

def TransactionRow.Of (tx : TransactionRow) (c : Chain) : Prop :=
  ∃ event ∈ c.eventsAt tx.ledgerSequence, event.transactionHash = tx.hash

def EventRow.Of (row : EventRow) (c : Chain) : Prop :=
  ∃ event ∈ c.eventsAt row.ledgerSequence, ∃ i, row = event.row i

/-- The rows that hang on a ledger are the chain's. -/
structure State.Own (s : State H) (c : Chain) (n : Nat) : Prop where
  events : ∀ row ∈ s.events, row.ledgerSequence = n → row.Of c
  transactions : ∀ tx ∈ s.transactions, tx.ledgerSequence = n → tx.Of c

/-- No Ledger row gets the network's hash, by an upsert or by a reorg, beside rows or
fetched events of another ledger, and the reorg branch gets to its cursor write. -/
def settled (hash : List Block → H) (s : State H) : Act → Prop
  | .work k _ => ∀ w seq ledgerMeta, s.workers[k]? = some w → w.phase = .upsertLedger seq ledgerMeta →
      s.chain.Has hash seq ledgerMeta → s.Own s.chain seq
  | .fails k => ∀ w prevSeq, s.workers[k]? = some w → w.phase ≠ .reset prevSeq
  | .reorg fork block tip => ∀ n m, fork ≤ n → s.ledgers n = some m →
      (s.chain.reorg fork block tip).Has hash n m → s.Own (s.chain.reorg fork block tip) n ∧
        ∀ w ∈ s.workers, ∀ event ∈ w.phase.pending, event.ledgerSequence = n →
          event ∈ (s.chain.reorg fork block tip).eventsAt n
  | .sync _ | .orchestrate | .orchestrateFails | .expire _ => True

/-- The last ledger indexed is the network's last one. -/
structure CaughtUp (hash : List Block → H) (s : State H) (last : Nat) : Prop where
  idle : s.sync = .idle
  cursor : s.lastLedger = some last
  tip : s.chain.tip = last
  ledger : ∃ m, s.ledgers last = some m ∧ m.hash = (s.chain.ledgerMeta hash last).hash

structure Unorphaned (hash : List Block → H) (s : State H) (last : Nat) : Prop where
  ledgers : ∀ n m, n ≤ last → s.ledgers n = some m → m = s.chain.ledgerMeta hash n
  transactions : ∀ tx ∈ s.transactions, tx.ledgerSequence ≤ last → tx.Of s.chain
  events : ∀ row ∈ s.events, row.ledgerSequence ≤ last → row.Of s.chain

/-- Each row names the hash of the row before it. -/
def State.Linked (s : State H) (start last : Nat) : Prop :=
  ∀ n, start < n → n ≤ last → ∃ m, s.ledgers n = some m ∧
    ∀ p, s.ledgers (n - 1) = some p → p.hash = m.previousLedgerHash

/-- What holds of the tables, whatever the worker does. -/
structure Tables (hash : List Block → H) (config : IndexerConfig) (s : State H) : Prop where
  cursor : config.indexerStartLedger ≤ s.cursor config
  start : ∀ n m, s.ledgers n = some m → config.indexerStartLedger < n
  known : ∀ n m, s.ledgers n = some m → Chain.Known hash n m
  cached : ∀ n m, s.ledgerCache n = some m → Chain.Known hash n m
  events : ∀ row ∈ s.events, (s.ledgers row.ledgerSequence).isSome = true
  transactions : ∀ tx ∈ s.transactions, (s.ledgers tx.ledgerSequence).isSome = true
  own : ∀ n m, s.ledgers n = some m → s.chain.Has hash n m → s.Own s.chain n

/-- The rows are linked up to here. -/
def State.sure (config : IndexerConfig) (s : State H) (w : Worker H) : Nat :=
  match w.phase with
  | .metadata seq | .findPrev seq _ | .upsertLedger seq _ | .reorgEvent seq => seq - 1
  | .rollback prevSeq => prevSeq
  | .reset prevSeq => prevSeq - 1
  | .failed => s.cursor config
  | .fetchEvents .. | .findTx .. | .upsertTx .. | .upsertEvent .. | .authorize .. | .done => w.stop

/-- What the call of the live worker relies on. -/
def At (hash : List Block → H) (config : IndexerConfig) (s : State H) (w : Worker H) : Prop :=
  match w.phase with
  | .metadata seq => s.cursor config < seq ∧ seq ≤ w.stop
  | .findPrev seq m => s.cursor config < seq ∧ seq ≤ w.stop ∧ Chain.Known hash seq m
  | .upsertLedger seq m => s.cursor config < seq ∧ seq ≤ w.stop ∧ Chain.Known hash seq m ∧
      ∀ p, s.ledgers (seq - 1) = some p → p.hash = m.previousLedgerHash
  | .reorgEvent seq => config.indexerStartLedger < seq - 1 ∧ s.cursor config < seq
  | .rollback prevSeq => config.indexerStartLedger < prevSeq ∧ s.cursor config ≤ prevSeq
  | .reset prevSeq => config.indexerStartLedger < prevSeq
  | .failed => True
  | .fetchEvents .. | .findTx .. | .upsertTx .. | .upsertEvent .. | .authorize .. | .done =>
    s.cursor config ≤ w.stop

/-- The events fetched are the network's wherever the row of their ledger is. -/
def State.Genuine (hash : List Block → H) (s : State H) (events : List LedgerEvent) : Prop :=
  ∀ event ∈ events, ∀ m, s.ledgers event.ledgerSequence = some m →
    s.chain.Has hash event.ledgerSequence m → event ∈ s.chain.eventsAt event.ledgerSequence

structure Live (hash : List Block → H) (config : IndexerConfig) (s : State H) (w : Worker H) : Prop where
  linked : s.Linked config.indexerStartLedger (s.sure config w)
  at_ : At hash config s w
  pending : s.Genuine hash w.phase.pending

def State.Quiet (s : State H) : Prop := ∀ w ∈ s.workers, w.phase.ended = true

/-- Only the round syncToLatest waits for has a running worker, its last one. -/
def Single (hash : List Block → H) (config : IndexerConfig) (s : State H) : Prop :=
  match s.sync with
  | .waiting round => ∃ earlier w, s.workers = earlier ++ [w] ∧ earlier.length = round.base ∧
      (∀ v ∈ earlier, v.phase.ended = true) ∧ w.stop = round.stop ∧ Live hash config s w
  | .gap target last => s.Quiet ∧ last = s.cursor config ∧ last + 1 < target ∧
      s.Linked config.indexerStartLedger last
  | .save round => s.Quiet ∧ s.cursor config ≤ round.stop ∧ s.Linked config.indexerStartLedger round.stop
  | .idle | .read _ | .resolve _ => s.Quiet ∧ s.Linked config.indexerStartLedger (s.cursor config)

structure Unwinds (hash : List Block → H) (config : IndexerConfig) (s : State H) : Prop where
  tables : Tables hash config s
  single : Single hash config s

theorem State.Linked.mono {s : State H} {start last earlier : Nat} (linked : s.Linked start last)
    (less : earlier ≤ last) : s.Linked start earlier :=
  fun n above below => linked n above (Nat.le_trans below less)

/-- Below a row of the network all rows are the network's. -/
theorem State.Linked.has {s : State H} {start last : Nat} (linked : s.Linked start last)
    (injective : Function.Injective hash) (known : ∀ n m, s.ledgers n = some m → Chain.Known hash n m)
    (within : last ≤ s.chain.tip)
    (top : ∃ m, s.ledgers last = some m ∧ m.hash = (s.chain.ledgerMeta hash last).hash)
    {n : Nat} (above : start < n) (below : n ≤ last) :
    ∃ m, s.ledgers n = some m ∧ s.chain.Has hash n m := by
  induction below using Nat.decreasingInduction with
  | self =>
    obtain ⟨m, stored, same⟩ := top
    exact ⟨m, stored, within, same⟩
  | of_succ k bound ih =>
    obtain ⟨m, stored, has⟩ := ih (Nat.lt_succ_of_lt above)
    obtain ⟨m', stored', link⟩ := linked (k + 1) (Nat.lt_succ_of_lt above) bound
    obtain rfl := Option.some.inj (stored.symm.trans stored')
    obtain ⟨p, before, -⟩ := linked k above (Nat.le_of_succ_le bound)
    refine ⟨p, before, Nat.le_trans (Nat.le_of_succ_le bound) within, ?_⟩
    rw [link p before, has.eq injective (known _ _ stored)]
    rfl

theorem Unwinds.unorphaned {s : State H} {last : Nat} (unwinds : Unwinds hash config s)
    (injective : Function.Injective hash) (caughtUp : CaughtUp hash s last) :
    Unorphaned hash s last := by
  obtain ⟨idle, cursor, tip, ledger⟩ := caughtUp
  have tables := unwinds.tables
  have linked : s.Linked config.indexerStartLedger last := by
    have single := unwinds.single
    rw [Single, idle] at single
    rw [State.cursor, cursor, Option.getD_some] at single
    exact single.2
  have has {n : Nat} {m : LedgerMeta H} (below : n ≤ last) (stored : s.ledgers n = some m) :
      s.chain.Has hash n m := by
    obtain ⟨m', stored', has⟩ := linked.has injective tables.known (Nat.le_of_eq tip.symm) ledger
      (tables.start n m stored) below
    obtain rfl := Option.some.inj (stored.symm.trans stored')
    exact has
  refine ⟨fun n m below stored => (has below stored).eq injective (tables.known n m stored), ?_, ?_⟩
  · intro tx member below
    obtain ⟨m, stored⟩ := Option.isSome_iff_exists.mp (tables.transactions tx member)
    exact (tables.own _ m stored (has below stored)).transactions tx member rfl
  · intro row member below
    obtain ⟨m, stored⟩ := Option.isSome_iff_exists.mp (tables.events row member)
    exact (tables.own _ m stored (has below stored)).events row member rfl

/-- A running worker is the last one, of the round waited for. -/
theorem Unwinds.live {s : State H} {k : Nat} {w : Worker H} (unwinds : Unwinds hash config s)
    (found : s.workers[k]? = some w) (running : w.phase.ended = false) :
    ∃ round earlier, s.sync = .waiting round ∧ s.workers = earlier ++ [w] ∧ earlier.length = k ∧
      round.base = k ∧ (∀ v ∈ earlier, v.phase.ended = true) ∧ w.stop = round.stop ∧
      Live hash config s w := by
  have single := unwinds.single
  have listed : w ∈ s.workers := List.mem_of_getElem? found
  unfold Single at single
  split at single
  · rename_i round waiting
    obtain ⟨earlier, v, workers, base, ended, stop, live⟩ := single
    have bound : ¬k < earlier.length := by
      intro less
      rw [workers, List.getElem?_append_left less] at found
      rw [ended w (List.mem_of_getElem? found)] at running
      contradiction
    rw [workers, List.getElem?_append_right (Nat.le_of_not_lt bound), List.getElem?_singleton] at found
    split at found
    · cases found
      have last : earlier.length = k := by omega
      exact ⟨round, earlier, waiting, workers, last, base.symm.trans last, ended, stop, live⟩
    · contradiction
  all_goals
    rw [single.1 w listed] at running
    contradiction

/-- A worker's step: `t` has its effect, `phase` is its next call. -/
theorem Unwinds.advance {s t : State H} {k : Nat} {w : Worker H} {phase : Phase H}
    (unwinds : Unwinds hash config s) (found : s.workers[k]? = some w) (running : w.phase.ended = false)
    (workers : t.workers = s.workers) (sync : t.sync = s.sync)
    (step : Live hash config s w → Tables hash config t ∧ Live hash config t { w with phase := phase }) :
    Unwinds hash config (t.setPhase k w phase) := by
  obtain ⟨round, earlier, waiting, listed, length, base, ended, stop, live⟩ := unwinds.live found running
  obtain ⟨tables, live⟩ := step live
  refine ⟨⟨tables.cursor, tables.start, tables.known, tables.cached, tables.events, tables.transactions,
    fun n m stored has => ⟨(tables.own n m stored has).events, (tables.own n m stored has).transactions⟩⟩, ?_⟩
  have waits : (t.setPhase k w phase).sync = .waiting round := sync.trans waiting
  unfold Single
  rw [waits]
  refine ⟨earlier, { w with phase := phase }, ?_, length.trans base.symm, ended, stop, ?_⟩
  · subst length
    rw [State.setPhase, workers, listed, List.set_append_right _ _ (Nat.le_refl _), Nat.sub_self]
    rfl
  · exact ⟨live.linked, live.at_, live.pending⟩

/-- A worker's step that changes no table. -/
theorem Unwinds.goto {s : State H} {k : Nat} {w : Worker H} {phase : Phase H}
    (unwinds : Unwinds hash config s) (found : s.workers[k]? = some w) (running : w.phase.ended = false)
    (step : Live hash config s w → Live hash config s { w with phase := phase }) :
    Unwinds hash config (s.setPhase k w phase) :=
  unwinds.advance found running rfl rfl fun live => ⟨unwinds.tables, step live⟩

theorem Live.cursor_le {s : State H} {w : Worker H} (live : Live hash config s w)
    (steady : ∀ prevSeq, w.phase ≠ .reset prevSeq) : s.cursor config ≤ s.sure config w := by
  obtain ⟨-, at_, -⟩ := live
  obtain ⟨start, stop, phase⟩ := w
  cases phase with
  | reset prevSeq => exact absurd rfl (steady prevSeq)
  | metadata | findPrev | upsertLedger => exact Nat.le_sub_one_of_lt at_.1
  | reorgEvent => exact Nat.le_sub_one_of_lt at_.2
  | rollback => exact at_.2
  | failed => exact Nat.le_refl _
  | fetchEvents | findTx | upsertTx | upsertEvent | authorize | done => exact at_

theorem Live.failed {s : State H} {w : Worker H} (live : Live hash config s w)
    (steady : ∀ prevSeq, w.phase ≠ .reset prevSeq) :
    Live hash config s { w with phase := .failed } :=
  ⟨live.linked.mono (live.cursor_le steady), trivial, fun _ member => absurd member List.not_mem_nil⟩

theorem metadata_unwinds {s : State H} {k start stop seq : Nat} (fallback : Bool)
    (unwinds : Unwinds hash config s) (found : s.workers[k]? = some ⟨start, stop, .metadata seq⟩) :
    Unwinds hash config ((s.fetchLedgerMetadata hash seq fallback).1.setPhase k
      ⟨start, stop, .metadata seq⟩ (s.fetchLedgerMetadata hash seq fallback).2) := by
  have current : Chain.Known hash seq (s.chain.ledgerMeta hash seq) := ⟨s.chain, rfl⟩
  have fails : Unwinds hash config (s.setPhase k ⟨start, stop, .metadata seq⟩ .failed) :=
    unwinds.goto found rfl fun live => live.failed fun _ => nofun
  have tables := unwinds.tables
  unfold State.fetchLedgerMetadata
  split
  · split
    · rename_i cached hit
      exact unwinds.goto found rfl fun live =>
        ⟨live.linked, ⟨live.at_.1, live.at_.2, tables.cached seq cached hit⟩, live.pending⟩
    · split
      · refine unwinds.advance found rfl ?_ ?_ fun live => ⟨?_, ?_⟩
        · rfl
        · rfl
        · refine { tables with cached := fun n m copy => ?_, own := fun n m stored has => ?_ }
          · change Function.update s.ledgerCache seq _ n = some m at copy
            rw [Function.update_apply] at copy
            split at copy
            · rename_i same
              cases copy
              subst same
              exact current
            · exact tables.cached n m copy
          · exact { tables.own n m stored has with }
        · exact ⟨live.linked, ⟨live.at_.1, live.at_.2, current⟩, live.pending⟩
      · exact fails
  · split
    · exact unwinds.goto found rfl fun live =>
        ⟨live.linked, ⟨live.at_.1, live.at_.2, current⟩, live.pending⟩
    · exact fails

theorem findPrev_unwinds [DecidableEq H] {s : State H} {k start stop seq : Nat} {ledgerMeta : LedgerMeta H}
    (unwinds : Unwinds hash config s)
    (found : s.workers[k]? = some ⟨start, stop, .findPrev seq ledgerMeta⟩) :
    Unwinds hash config (s.setPhase k ⟨start, stop, .findPrev seq ledgerMeta⟩
      (s.findPrev seq ledgerMeta)) := by
  refine unwinds.goto found rfl fun ⟨linked, ⟨above, upper, known⟩, pending⟩ => ?_
  unfold State.findPrev
  split
  · rename_i prevLedger stored
    split
    · exact ⟨linked, ⟨unwinds.tables.start _ _ stored, above⟩, pending⟩
    · rename_i same
      refine ⟨linked, ⟨above, upper, known, fun p before => ?_⟩, pending⟩
      obtain rfl := Option.some.inj (stored.symm.trans before)
      exact Decidable.not_not.mp same
  · rename_i missing
    refine ⟨linked, ⟨above, upper, known, fun p before => ?_⟩, pending⟩
    rw [missing] at before
    contradiction

theorem rollback_unwinds {s : State H} {k start stop prevSeq : Nat} (unwinds : Unwinds hash config s)
    (found : s.workers[k]? = some ⟨start, stop, .rollback prevSeq⟩) :
    Unwinds hash config ((s.rollbackLedger prevSeq).1.setPhase k ⟨start, stop, .rollback prevSeq⟩
      (s.rollbackLedger prevSeq).2) := by
  have tables := unwinds.tables
  have other {n : Nat} (different : n ≠ prevSeq) :
      Function.update s.ledgers prevSeq none n = s.ledgers n := Function.update_of_ne different _ _
  have kept {n : Nat} {m : LedgerMeta H} (stored : Function.update s.ledgers prevSeq none n = some m) :
      s.ledgers n = some m := by
    rw [Function.update_apply] at stored
    split at stored
    · contradiction
    · exact stored
  unfold State.rollbackLedger
  dsimp only
  split
  · exact unwinds.goto found rfl fun live => live.failed fun _ => nofun
  · refine unwinds.advance found rfl ?_ ?_ fun live => ⟨?_, ?_⟩
    · rfl
    · rfl
    · refine ⟨tables.cursor, fun n m stored => tables.start n m (kept stored),
        fun n m stored => tables.known n m (kept stored), tables.cached, fun row member => ?_,
        fun tx member => ?_, fun n m stored has => ?_⟩
      · obtain ⟨member, different⟩ := List.mem_filter.mp member
        change (Function.update s.ledgers prevSeq none _).isSome = true
        rw [other (of_decide_eq_true different)]
        exact tables.events row member
      · obtain ⟨member, different⟩ := List.mem_filter.mp member
        change (Function.update s.ledgers prevSeq none _).isSome = true
        rw [other (of_decide_eq_true different)]
        exact tables.transactions tx member
      · obtain ⟨events, transactions⟩ := tables.own n m (kept stored) has
        exact ⟨fun row member => events row (List.mem_of_mem_filter member),
          fun tx member => transactions tx (List.mem_of_mem_filter member)⟩
    · obtain ⟨linked, ⟨above, cursor⟩, -⟩ := live
      refine ⟨fun n after before => ?_, above, fun _ member => absurd member List.not_mem_nil⟩
      have before : n ≤ prevSeq - 1 := before
      obtain ⟨m, stored, link⟩ := linked n after (Nat.le_trans before (Nat.sub_le _ _))
      have different : n ≠ prevSeq := by omega
      exact ⟨m, (other different).trans stored, fun p at_ => link p (kept at_)⟩

theorem reset_unwinds {s : State H} {k start stop prevSeq : Nat} (unwinds : Unwinds hash config s)
    (found : s.workers[k]? = some ⟨start, stop, .reset prevSeq⟩) :
    Unwinds hash config (({ s with lastLedger := some (prevSeq - 1) } : State H).setPhase k
      ⟨start, stop, .reset prevSeq⟩ .failed) := by
  refine unwinds.advance found rfl ?_ ?_ fun ⟨linked, above, _⟩ => ⟨?_, ?_⟩
  · rfl
  · rfl
  · have tables := unwinds.tables
    exact { tables with
      cursor := Nat.le_sub_one_of_lt above
      own := fun n m stored has => { tables.own n m stored has with } }
  · exact ⟨linked, trivial, fun _ member => absurd member List.not_mem_nil⟩

/-- The new row names the hash of the row before it, and no rows of another ledger. -/
theorem upsertLedger_unwinds {s : State H} {k start stop seq : Nat} {ledgerMeta : LedgerMeta H}
    (unwinds : Unwinds hash config s)
    (found : s.workers[k]? = some ⟨start, stop, .upsertLedger seq ledgerMeta⟩)
    (own : s.chain.Has hash seq ledgerMeta → s.Own s.chain seq) :
    Unwinds hash config
      ((s.upsertLedger ⟨start, stop, .upsertLedger seq ledgerMeta⟩ seq ledgerMeta).1.setPhase k
        ⟨start, stop, .upsertLedger seq ledgerMeta⟩
        (s.upsertLedger ⟨start, stop, .upsertLedger seq ledgerMeta⟩ seq ledgerMeta).2) := by
  have tables := unwinds.tables
  have stays {n : Nat} (row : (s.ledgers n).isSome = true) :
      (Function.update s.ledgers seq (some ledgerMeta) n).isSome = true := by
    rw [Function.update_apply]
    split
    · rfl
    · exact row
  have holds {P : Nat → LedgerMeta H → Prop} (here : P seq ledgerMeta)
      (others : ∀ n m, s.ledgers n = some m → P n m) (n : Nat) (m : LedgerMeta H)
      (stored : Function.update s.ledgers seq (some ledgerMeta) n = some m) : P n m := by
    rw [Function.update_apply] at stored
    split at stored
    · rename_i same
      cases stored
      subst same
      exact here
    · exact others n m stored
  refine unwinds.advance found rfl ?_ ?_ fun ⟨linked, ⟨above, upper, known, link⟩, _⟩ => ⟨?_, ?_⟩
  · rfl
  · rfl
  · refine ⟨tables.cursor, holds ?_ tables.start, holds known tables.known, tables.cached,
      fun row member => stays (tables.events row member), fun tx member => stays (tables.transactions tx member),
      fun n m stored has => ?_⟩
    · exact Nat.lt_of_le_of_lt tables.cursor above
    · have settled := holds (P := fun n m => s.chain.Has hash n m → s.Own s.chain n) own tables.own n m stored has
      exact { settled with }
  · have before {n : Nat} (below : n < seq) :
        Function.update s.ledgers seq (some ledgerMeta) n = s.ledgers n :=
      Function.update_of_ne (Nat.ne_of_lt below) _ _
    have next : (s.upsertLedger ⟨start, stop, .upsertLedger seq ledgerMeta⟩ seq ledgerMeta).1.Linked
        config.indexerStartLedger seq := by
      intro n after upTo
      change ∃ m, Function.update s.ledgers seq (some ledgerMeta) n = some m ∧
        ∀ p, Function.update s.ledgers seq (some ledgerMeta) (n - 1) = some p → p.hash = m.previousLedgerHash
      rw [before (n := n - 1) (by omega)]
      by_cases same : n = seq
      · subst same
        exact ⟨ledgerMeta, Function.update_self .., link⟩
      · rw [before (Nat.lt_of_le_of_ne upTo same)]
        exact linked n after (Nat.le_sub_one_of_lt (Nat.lt_of_le_of_ne upTo same))
    unfold State.upsertLedger at next ⊢
    dsimp only at upper ⊢
    by_cases more : seq < stop
    · rw [if_pos more]
      exact ⟨next, ⟨Nat.lt_succ_of_lt above, more⟩, fun _ member => absurd member List.not_mem_nil⟩
    · rw [if_neg more]
      obtain rfl : seq = stop := by omega
      exact ⟨next, Nat.le_of_lt above, fun _ member => absurd member List.not_mem_nil⟩

theorem process_live {s : State H} {w : Worker H} {events : List LedgerEvent} (i : Nat)
    (linked : s.Linked config.indexerStartLedger w.stop) (cursor : s.cursor config ≤ w.stop)
    (genuine : s.Genuine hash events) : Live hash config s { w with phase := process i events } := by
  cases events with
  | nil => exact ⟨linked, cursor, genuine⟩
  | cons event rest => exact ⟨linked, cursor, genuine⟩

theorem getEvents_mem {c : Chain} {start offset : Nat} {event : LedgerEvent}
    (member : event ∈ c.getEvents start offset) : event ∈ c.eventsAt event.ledgerSequence := by
  obtain ⟨n, -, at_⟩ := List.mem_flatMap.mp (List.mem_of_mem_drop (List.mem_of_mem_take member))
  rw [(Chain.eventsAt_ledger at_).1]
  exact at_

theorem fetchEvents_unwinds {s : State H} {k start stop offset : Nat} {events : List LedgerEvent}
    (fallback : Bool) (unwinds : Unwinds hash config s)
    (found : s.workers[k]? = some ⟨start, stop, .fetchEvents offset events⟩) :
    Unwinds hash config
      ((s.fetchEvents ⟨start, stop, .fetchEvents offset events⟩ offset events fallback).1.setPhase k
        ⟨start, stop, .fetchEvents offset events⟩
        (s.fetchEvents ⟨start, stop, .fetchEvents offset events⟩ offset events fallback).2) := by
  have tables := unwinds.tables
  let t : State H := { s with served := (start, stop, s.chain) :: s.served }
  have served : Tables hash config t :=
    { tables with own := fun n m stored has => { tables.own n m stored has with } }
  have ends {listed : List LedgerEvent}
      (genuine : s.Genuine hash events → s.Genuine hash listed) :
      Unwinds hash config (t.setPhase k ⟨start, stop, .fetchEvents offset events⟩ (process 0 listed)) := by
    refine unwinds.advance found rfl ?_ ?_ fun ⟨linked, cursor, pending⟩ => ⟨served, ?_⟩
    · rfl
    · rfl
    · have settled : t.Genuine hash listed := genuine pending
      have linked : t.Linked config.indexerStartLedger stop := linked
      exact process_live 0 linked cursor settled
  have more (genuine : s.Genuine hash events) :
      s.Genuine hash (events ++ (s.chain.getEvents start offset).filter (inRange start stop)) := by
    intro event member m stored has
    rcases List.mem_append.mp member with before | page
    · exact genuine event before m stored has
    · exact getEvents_mem (List.mem_of_mem_filter page)
  unfold State.fetchEvents
  dsimp only
  split
  · exact ends id
  · split
    · exact ends id
    · split
      · exact ends more
      · split
        · exact ends more
        · refine unwinds.advance found rfl ?_ ?_ fun ⟨linked, cursor, pending⟩ => ⟨served, ?_⟩
          · rfl
          · rfl
          · exact ⟨linked, cursor, more pending⟩

theorem findTx_unwinds {s : State H} {k start stop i : Nat} {event : LedgerEvent}
    {rest : List LedgerEvent} (unwinds : Unwinds hash config s)
    (found : s.workers[k]? = some ⟨start, stop, .findTx i event rest⟩) :
    Unwinds hash config (s.setPhase k ⟨start, stop, .findTx i event rest⟩ (s.findTx i event rest)) := by
  refine unwinds.goto found rfl fun ⟨linked, cursor, pending⟩ => ?_
  unfold State.findTx
  split
  · exact ⟨linked, cursor, pending⟩
  · exact ⟨linked, cursor, pending⟩

theorem upsertTx_unwinds {s : State H} {k start stop i : Nat} {event : LedgerEvent}
    {rest : List LedgerEvent} (unwinds : Unwinds hash config s)
    (found : s.workers[k]? = some ⟨start, stop, .upsertTx i event rest⟩) :
    Unwinds hash config ((s.upsertTx i event rest).1.setPhase k ⟨start, stop, .upsertTx i event rest⟩
      (s.upsertTx i event rest).2) := by
  have tables := unwinds.tables
  unfold State.upsertTx
  split
  · exact unwinds.goto found rfl fun ⟨linked, cursor, pending⟩ => ⟨linked, cursor, pending⟩
  · split
    · rename_i row
      refine unwinds.advance found rfl ?_ ?_ fun ⟨linked, cursor, pending⟩ => ⟨?_, ?_⟩
      · rfl
      · rfl
      · refine { tables with transactions := fun tx member => ?_, own := fun n m stored has => ?_ }
        · rcases List.mem_cons.mp member with rfl | before
          · exact row
          · exact tables.transactions tx before
        · obtain ⟨events, transactions⟩ := tables.own n m stored has
          refine ⟨events, fun tx member same => ?_⟩
          rcases List.mem_cons.mp member with rfl | before
          · subst same
            exact ⟨event, pending event List.mem_cons_self m stored has, rfl⟩
          · exact transactions tx before same
      · exact ⟨linked, cursor, pending⟩
    · exact unwinds.goto found rfl fun live => live.failed fun _ => nofun

theorem upsertEvent_unwinds {s : State H} {k start stop i : Nat} {event : LedgerEvent}
    {rest : List LedgerEvent} (unwinds : Unwinds hash config s)
    (found : s.workers[k]? = some ⟨start, stop, .upsertEvent i event rest⟩) :
    Unwinds hash config ((s.upsertEvent i event rest).1.setPhase k ⟨start, stop, .upsertEvent i event rest⟩
      (s.upsertEvent i event rest).2) := by
  have tables := unwinds.tables
  unfold State.upsertEvent
  split
  · exact unwinds.goto found rfl fun ⟨linked, cursor, pending⟩ =>
      ⟨linked, cursor, fun other member => pending other (List.mem_cons_of_mem _ member)⟩
  · split
    · rename_i rows
      rw [Bool.and_eq_true] at rows
      refine unwinds.advance found rfl ?_ ?_ fun ⟨linked, cursor, pending⟩ => ⟨?_, ?_⟩
      · rfl
      · rfl
      · refine { tables with events := fun row member => ?_, own := fun n m stored has => ?_ }
        · rcases List.mem_cons.mp member with rfl | before
          · exact rows.1
          · exact tables.events row before
        · obtain ⟨events, transactions⟩ := tables.own n m stored has
          refine ⟨fun row member same => ?_, transactions⟩
          rcases List.mem_cons.mp member with rfl | before
          · subst same
            exact ⟨event, pending event List.mem_cons_self m stored has, i, rfl⟩
          · exact events row before same
      · exact ⟨linked, cursor, fun other member => pending other (List.mem_cons_of_mem _ member)⟩
    · exact unwinds.goto found rfl fun live => live.failed fun _ => nofun

theorem work_unwinds [DecidableEq H] {s t : State H} {k : Nat} {fallback : Bool}
    (unwinds : Unwinds hash config s) (allowed : settled hash s (.work k fallback))
    (stepped : step hash config s (.work k fallback) = some t) : Unwinds hash config t := by
  obtain ⟨⟨start, stop, phase⟩, found, moved⟩ := Option.bind_eq_some_iff.mp stepped
  dsimp only at moved
  split at moved
  · contradiction
  · rename_i running
    cases moved
    cases phase with
    | metadata seq => exact metadata_unwinds fallback unwinds found
    | findPrev seq ledgerMeta => exact findPrev_unwinds unwinds found
    | reorgEvent seq =>
      exact unwinds.goto found rfl fun ⟨linked, ⟨above, cursor⟩, pending⟩ =>
        ⟨linked, ⟨above, Nat.le_sub_one_of_lt cursor⟩, pending⟩
    | rollback prevSeq => exact rollback_unwinds unwinds found
    | reset prevSeq => exact reset_unwinds unwinds found
    | upsertLedger seq ledgerMeta =>
      exact upsertLedger_unwinds unwinds found (allowed _ seq ledgerMeta found rfl)
    | fetchEvents offset events => exact fetchEvents_unwinds fallback unwinds found
    | findTx i event rest => exact findTx_unwinds unwinds found
    | upsertTx i event rest => exact upsertTx_unwinds unwinds found
    | upsertEvent i event rest => exact upsertEvent_unwinds unwinds found
    | authorize i rest =>
      exact unwinds.goto found rfl fun ⟨linked, cursor, pending⟩ =>
        process_live (i + 1) linked cursor pending
    | done | failed => exact absurd rfl running

/-- A step of syncToLatest after which no worker runs. -/
theorem Unwinds.between {s : State H} {t : State H} (unwinds : Unwinds hash config s)
    (rows : t = { s with lastLedger := t.lastLedger, sync := t.sync })
    (cursor : config.indexerStartLedger ≤ t.cursor config) (single : Single hash config t) :
    Unwinds hash config t := by
  refine ⟨?_, single⟩
  obtain ⟨-, start, known, cached, events, transactions, own⟩ := unwinds.tables
  rw [rows] at cursor ⊢
  exact ⟨cursor, start, known, cached, events, transactions, fun n m stored has =>
    { own n m stored has with }⟩

theorem spawn_unwinds {s : State H} (round : Round) (unwinds : Unwinds hash config s) (quiet : s.Quiet)
    (next : round.last = s.cursor config) (ahead : round.last < round.stop)
    (linked : s.Linked config.indexerStartLedger round.last) :
    Unwinds hash config (s.spawn round [(round.last + 1, round.stop)]) := by
  obtain ⟨cursor, start, known, cached, events, transactions, own⟩ := unwinds.tables
  refine ⟨⟨cursor, start, known, cached, events, transactions, fun n m stored has =>
    { own n m stored has with }⟩, ?_⟩
  refine ⟨s.workers, Worker.begin (round.last + 1) round.stop, rfl, rfl, quiet, rfl, ?_⟩
  have begins : (Worker.begin (round.last + 1) round.stop : Worker H) =
      ⟨round.last + 1, round.stop, .metadata (round.last + 1)⟩ := by
    rw [Worker.begin, if_pos (Nat.succ_le_of_lt ahead)]
  rw [begins]
  refine ⟨linked, ⟨?_, ahead⟩, fun _ member => absurd member List.not_mem_nil⟩
  exact Nat.lt_succ_of_le (Nat.le_of_eq next.symm)

theorem read_unwinds {s t : State H} {target : Nat} (alone : config.indexerCatchupWorkers = 1)
    (unwinds : Unwinds hash config s) (calls : s.sync = .read target)
    (stepped : s.orchestrate config = some t) : Unwinds hash config t := by
  have single := unwinds.single
  rw [Single, calls] at single
  obtain ⟨quiet, linked⟩ := single
  have cursor := unwinds.tables.cursor
  have read : Unwinds hash config { s with lastLedger := some (s.cursor config), sync := .read target } :=
    unwinds.between rfl cursor ⟨quiet, linked⟩
  simp only [State.orchestrate, calls, alone, Nat.lt_irrefl, and_false, if_false] at stepped
  split at stepped
  · cases stepped
    exact unwinds.between rfl cursor ⟨quiet, linked⟩
  · split at stepped
    · rename_i ahead
      cases stepped
      exact unwinds.between rfl cursor ⟨quiet, rfl, ahead, linked⟩
    · cases stepped
      have batch := config.batch_pos
      have ahead : s.cursor config < min (s.cursor config + config.indexerBatchSize) target := by omega
      exact spawn_unwinds ⟨target, s.cursor config, _, 0, false, false⟩ read quiet rfl ahead linked

theorem waiting_unwinds {s t : State H} {round : Round} (unwinds : Unwinds hash config s)
    (calls : s.sync = .waiting round) (stepped : s.orchestrate config = some t) :
    Unwinds hash config t := by
  have single := unwinds.single
  rw [Single, calls] at single
  obtain ⟨earlier, ⟨start, stop, phase⟩, workers, base, ended, rfl, live⟩ := single
  have cursor := unwinds.tables.cursor
  have members : s.workers.drop round.base = [⟨start, round.stop, phase⟩] := by
    rw [workers, ← base, List.drop_left]
  have quiet (stopped : phase.ended = true) : s.Quiet := by
    intro v listed
    rw [workers] at listed
    rcases List.mem_append.mp listed with before | last
    · exact ended v before
    · rw [List.mem_singleton.mp last]
      exact stopped
  simp only [State.orchestrate, calls, members, List.all_cons, List.all_nil, List.any_cons, List.any_nil,
    Bool.and_true, Bool.or_false] at stepped
  cases phase with
  | done =>
    cases stepped
    exact unwinds.between rfl cursor ⟨quiet rfl, live.at_, live.linked⟩
  | failed =>
    cases stepped
    exact unwinds.between rfl cursor ⟨quiet rfl, live.linked⟩
  | _ => contradiction

theorem orchestrate_unwinds {s t : State H} (alone : config.indexerCatchupWorkers = 1)
    (unwinds : Unwinds hash config s) (stepped : s.orchestrate config = some t) :
    Unwinds hash config t := by
  have single := unwinds.single
  have cursor := unwinds.tables.cursor
  cases calls : s.sync with
  | idle =>
    simp only [State.orchestrate, calls] at stepped
    contradiction
  | read target => exact read_unwinds alone unwinds calls stepped
  | gap target last =>
    rw [Single, calls] at single
    obtain ⟨quiet, next, ahead, linked⟩ := single
    simp only [State.orchestrate, calls, alone, Nat.lt_irrefl, and_false, if_false] at stepped
    cases stepped
    exact spawn_unwinds ⟨target, last, target - 1, 0, true, false⟩ unwinds quiet next
      (Nat.lt_sub_of_add_lt ahead) linked
  | waiting round => exact waiting_unwinds unwinds calls stepped
  | save round =>
    rw [Single, calls] at single
    obtain ⟨quiet, less, linked⟩ := single
    simp only [State.orchestrate, calls] at stepped
    cases stepped
    refine unwinds.between rfl (Nat.le_trans cursor less) ?_
    unfold Single
    cases round.backfill <;> cases round.returns
    all_goals exact ⟨quiet, linked⟩
  | resolve target =>
    rw [Single, calls] at single
    simp only [State.orchestrate, calls] at stepped
    cases stepped
    exact unwinds.between rfl cursor single

theorem State.Own.reorg {s : State H} {c d : Chain} {n : Nat} (own : s.Own c n)
    (same : d.eventsAt n = c.eventsAt n) : s.Own d n := by
  constructor
  · intro row member at_
    have emitted := own.events row member at_
    subst at_
    rw [EventRow.Of, ← same] at emitted
    exact emitted
  · intro tx member at_
    have emitted := own.transactions tx member at_
    subst at_
    rw [TransactionRow.Of, ← same] at emitted
    exact emitted

theorem reorg_unwinds {s : State H} {fork tip : Nat} {block : Nat → Block}
    (unwinds : Unwinds hash config s) (within : fork ≤ s.chain.tip + 1)
    (allowed : settled hash s (.reorg fork block tip)) :
    Unwinds hash config { s with chain := s.chain.reorg fork block tip } := by
  have single := unwinds.single
  obtain ⟨cursor, start, known, cached, events, transactions, own⟩ := unwinds.tables
  refine ⟨⟨cursor, start, known, cached, events, transactions, fun n m stored has => ?_⟩, ?_⟩
  · by_cases below : n < fork
    · obtain ⟨before, same⟩ := has.before_reorg within below
      exact { (own n m stored before).reorg same with }
    · exact { (allowed n m (Nat.le_of_not_lt below) stored has).1 with }
  · unfold Single at single ⊢
    dsimp only
    cases calls : s.sync with
    | waiting round =>
      rw [calls] at single
      obtain ⟨earlier, w, workers, base, ended, stop, live⟩ := single
      refine ⟨earlier, w, workers, base, ended, stop, live.linked, live.at_, ?_⟩
      intro event member m stored has
      by_cases below : event.ledgerSequence < fork
      · obtain ⟨before, same⟩ := has.before_reorg within below
        change event ∈ (s.chain.reorg fork block tip).eventsAt event.ledgerSequence
        rw [same]
        exact live.pending event member m stored before
      · have listed : w ∈ s.workers := workers ▸ List.mem_append_right _ (List.mem_singleton_self w)
        exact (allowed _ m (Nat.le_of_not_lt below) stored has).2 w listed event member rfl
    | _ =>
      rw [calls] at single
      exact single

theorem fails_unwinds {s : State H} {k : Nat} {w : Worker H} (unwinds : Unwinds hash config s)
    (found : s.workers[k]? = some w) (running : w.phase.ended = false)
    (steady : ∀ prevSeq, w.phase ≠ .reset prevSeq) : Unwinds hash config (s.setPhase k w .failed) :=
  unwinds.goto found running fun live => live.failed steady

theorem orchestrateFails_unwinds {s : State H} (unwinds : Unwinds hash config s)
    (waits : ∀ round, s.sync ≠ .waiting round) : Unwinds hash config { s with sync := .idle } := by
  have single := unwinds.single
  have cursor := unwinds.tables.cursor
  cases calls : s.sync with
  | waiting round => exact absurd calls (waits round)
  | gap target last =>
    rw [Single, calls] at single
    obtain ⟨quiet, rfl, -, linked⟩ := single
    exact unwinds.between rfl cursor ⟨quiet, linked⟩
  | save round =>
    rw [Single, calls] at single
    obtain ⟨quiet, less, linked⟩ := single
    exact unwinds.between rfl cursor ⟨quiet, linked.mono less⟩
  | _ =>
    rw [Single, calls] at single
    exact unwinds.between rfl cursor single

theorem step_unwinds [DecidableEq H] (alone : config.indexerCatchupWorkers = 1) {s t : State H} {a : Act}
    (unwinds : Unwinds hash config s) (allowed : settled hash s a)
    (stepped : step hash config s a = some t) : Unwinds hash config t := by
  cases a with
  | sync target =>
    simp only [step] at stepped
    split at stepped
    · rename_i idle
      cases stepped
      have single := unwinds.single
      rw [Single, idle] at single
      exact unwinds.between rfl unwinds.tables.cursor single
    · contradiction
  | orchestrate => exact orchestrate_unwinds alone unwinds stepped
  | orchestrateFails =>
    simp only [step] at stepped
    split at stepped <;> rename_i calls
    all_goals first
      | contradiction
      | cases stepped
        exact orchestrateFails_unwinds unwinds fun round waits => by rw [calls] at waits; contradiction
  | work k fallback => exact work_unwinds unwinds allowed stepped
  | fails k =>
    obtain ⟨w, found, moved⟩ := Option.bind_eq_some_iff.mp stepped
    split at moved
    · contradiction
    · rename_i running
      cases moved
      exact fails_unwinds unwinds found (Bool.eq_false_iff.mpr running) fun prevSeq => allowed w prevSeq found
  | reorg fork block tip =>
    simp only [step] at stepped
    split at stepped
    · rename_i within
      cases stepped
      exact reorg_unwinds unwinds within allowed
    · contradiction
  | expire seq =>
    cases stepped
    have tables := unwinds.tables
    refine ⟨{ tables with cached := fun n m copy => ?_, own := fun n m stored has => ?_ }, ?_⟩
    · change Function.update s.ledgerCache seq none n = some m at copy
      rw [Function.update_apply] at copy
      split at copy
      · contradiction
      · exact tables.cached n m copy
    · exact { tables.own n m stored has with }
    · have single := unwinds.single
      unfold Single at single ⊢
      dsimp only
      split at single <;> rename_i calls <;> rw [calls]
      · obtain ⟨earlier, w, workers, base, ended, stop, live⟩ := single
        exact ⟨earlier, w, workers, base, ended, stop, live.linked, live.at_, live.pending⟩
      all_goals exact single

theorem initial_unwinds (chain : Chain) : Unwinds hash config (.initial chain : State H) := by
  refine ⟨⟨Nat.le_refl _, fun _ _ => nofun, fun _ _ => nofun, fun _ _ => nofun, fun _ => nofun,
    fun _ => nofun, fun _ _ => nofun⟩, fun _ => nofun, fun n above below => ?_⟩
  have upTo : n ≤ config.indexerStartLedger := below
  omega

/-- In a run of a single worker whose steps are all settled, a state that has caught
up with the network holds no rows of another chain. -/
theorem settled_unorphaned [DecidableEq H] (injective : Function.Injective hash)
    (alone : config.indexerCatchupWorkers = 1) {s : State H} {last : Nat}
    (reached : (system hash config).ReachableWhen (settled hash) s) (caughtUp : CaughtUp hash s last) :
    Unorphaned hash s last := by
  have unwinds : Unwinds hash config s := by
    refine reached.invariant ?_ ?_
    · rintro _ ⟨chain, rfl⟩
      exact initial_unwinds chain
    · exact step_unwinds alone
  exact unwinds.unorphaned injective caughtUp

/-- Nothing is stored or fetched for the ledger. -/
def State.bare (s : State H) (n : Nat) : Bool :=
  (s.events.all fun row => row.ledgerSequence ≠ n) && (s.transactions.all fun tx => tx.ledgerSequence ≠ n) &&
    s.workers.all fun w => w.phase.pending.all fun event => event.ledgerSequence ≠ n

/-- A check of `settled` that looks for bare ledgers. -/
def settledBy [DecidableEq H] (hash : List Block → H) (s : State H) : Act → Bool
  | .work k _ => s.workers[k]?.all fun w => match w.phase with
      | .upsertLedger seq _ => s.bare seq
      | _ => true
  | .fails k => s.workers[k]?.all fun w => match w.phase with
      | .reset _ => false
      | _ => true
  | .reorg fork block tip => (List.range' fork (tip + 1 - fork)).all fun n => (s.ledgers n).all fun m =>
      m.hash ≠ ((s.chain.reorg fork block tip).ledgerMeta hash n).hash || s.bare n
  | .sync _ | .orchestrate | .orchestrateFails | .expire _ => true

theorem State.bare_own {s : State H} {n : Nat} (bare : s.bare n = true) (c : Chain) :
    s.Own c n ∧ ∀ w ∈ s.workers, ∀ event ∈ w.phase.pending, event.ledgerSequence ≠ n := by
  unfold State.bare at bare
  simp only [Bool.and_eq_true, List.all_eq_true, decide_eq_true_eq] at bare
  obtain ⟨⟨events, transactions⟩, pending⟩ := bare
  exact ⟨⟨fun row member same => absurd same (events row member),
    fun tx member same => absurd same (transactions tx member)⟩, pending⟩

theorem settled_of_settledBy [DecidableEq H] {s : State H} {a : Act} (checked : settledBy hash s a = true) :
    settled hash s a := by
  cases a with
  | work k fallback =>
    rintro ⟨start, stop, phase⟩ seq ledgerMeta found rfl -
    rw [settledBy, found, Option.all_some] at checked
    exact (State.bare_own checked s.chain).1
  | fails k =>
    rintro ⟨start, stop, phase⟩ prevSeq found rfl
    rw [settledBy, found, Option.all_some] at checked
    contradiction
  | reorg fork block tip =>
    intro n m above stored ⟨within, same⟩
    have within : n ≤ tip := within
    have listed : n ∈ List.range' fork (tip + 1 - fork) := by
      rw [List.mem_range'_1]
      omega
    have checked := List.all_eq_true.mp checked n listed
    rw [stored, Option.all_some, Bool.or_eq_true, decide_eq_true_eq] at checked
    obtain ⟨own, pending⟩ := State.bare_own (checked.resolve_left fun differs => differs same)
      (s.chain.reorg fork block tip)
    exact ⟨own, fun w member event listed named => absurd named (pending w member event listed)⟩
  | sync | orchestrate | orchestrateFails | expire => trivial

/-- A sufficient test of `CaughtUp`. -/
def caughtUp [DecidableEq H] (hash : List Block → H) (s : State H) (last : Nat) : Bool :=
  decide (s.sync = .idle ∧ s.lastLedger = some last ∧ s.chain.tip = last) &&
    (s.ledgers last).any fun m => m.hash = (s.chain.ledgerMeta hash last).hash

theorem caughtUp_of_test [DecidableEq H] {s : State H} {last : Nat} (checked : caughtUp hash s last = true) :
    CaughtUp hash s last := by
  obtain ⟨place, tip⟩ := Bool.and_eq_true_iff.mp checked
  obtain ⟨idle, cursor, network⟩ := of_decide_eq_true place
  obtain ⟨m, stored, same⟩ := (Option.any_eq_true _ _).mp tip
  exact ⟨idle, cursor, network, m, stored, of_decide_eq_true same⟩

def alone : IndexerConfig := ⟨0, 10, 1, batches.batch_pos, Nat.one_pos⟩

/-- Ledgers 1 and 2 are indexed; ledger 2 is replaced, rolled back when ledger 3 names
another hash, and indexed again before ledger 3. -/
def replaced : List Act :=
  [.sync 2, .orchestrate, .orchestrate] ++ works 0 8 ++
    [.orchestrate, .orchestrate, .orchestrate, .orchestrate] ++ works 1 8 ++
    [.orchestrate, .orchestrate, .orchestrate, .reorg 2 (paid "b") 3, .sync 3, .orchestrate] ++ works 2 5 ++
    [.orchestrate, .sync 3, .orchestrate, .orchestrate] ++ works 3 8 ++
    [.orchestrate, .orchestrate, .orchestrate, .orchestrate] ++ works 4 8 ++
    [.orchestrate, .orchestrate, .orchestrate]

theorem replaced_unorphaned : ∃ s : State (List Block),
    (system id alone).run (.initial ⟨paid "a", 2⟩) replaced = some s ∧ s.events.length = 3 ∧
      Unorphaned id s 3 := by
  have ends : ((system id alone).run (.initial ⟨paid "a", 2⟩) replaced).any
      (fun s => s.events.length = 3 ∧ caughtUp id s 3 = true) = true := by decide +kernel
  have calm : (system id alone).guardedBy (settledBy id) (.initial ⟨paid "a", 2⟩) replaced = true := by decide +kernel
  obtain ⟨s, executed, facts⟩ := (Option.any_eq_true _ _).mp ends
  obtain ⟨count, tested⟩ := of_decide_eq_true facts
  have guarded := Transition.System.guarded_of_guardedBy (settledBy id) (fun _ _ => settled_of_settledBy) calm
  have reached := Transition.System.reachableWhen_of_run (system id alone) _ replaced ⟨_, rfl⟩ guarded executed
  exact ⟨s, executed, count, settled_unorphaned Function.injective_id rfl reached (caughtUp_of_test tested)⟩

/-- The worker stores the event of ledger 1 and fails. The ledger is replaced by one
without events before the retry. -/
def retried : List Act :=
  [.sync 1, .orchestrate] ++ works 0 7 ++
    [.fails 0, .orchestrate, .reorg 1 (fun _ => ⟨[], "b"⟩) 1, .sync 1, .orchestrate] ++ works 1 4 ++
    [.orchestrate, .orchestrate, .orchestrate]

/-- The retry overwrites the hash and leaves the event. -/
theorem retried_orphaned : ¬ ∀ (config : IndexerConfig) (s : State (List Block)) (last : Nat),
    config.indexerCatchupWorkers = 1 → (system id config).Reachable s → CaughtUp id s last →
    Unorphaned id s last := by
  intro claim
  have ends : ((system id alone).run (.initial ⟨paid "a", 1⟩) retried).any (fun s => caughtUp id s 1 = true ∧
      s.events.any (fun row => row.ledgerSequence = 1) = true ∧ (s.chain.eventsAt 1).isEmpty = true) = true := by decide +kernel
  obtain ⟨s, executed, facts⟩ := (Option.any_eq_true _ _).mp ends
  obtain ⟨tested, left, silent⟩ := of_decide_eq_true facts
  obtain ⟨row, stored, first⟩ := List.any_eq_true.mp left
  have one : row.ledgerSequence = 1 := of_decide_eq_true first
  have reached := Transition.System.reachable_of_run (system id alone) _ retried ⟨_, rfl⟩ executed
  obtain ⟨event, emitted, -⟩ := (claim alone s 1 rfl reached (caughtUp_of_test tested)).events row stored (Nat.le_of_eq one)
  rw [one, List.isEmpty_iff.mp silent] at emitted
  cases emitted

end Octraban.Indexer
