import Octraban.Indexer.Sync

/-! Cursor soundness: every ledger up to IndexerState.lastLedger has its row and its
events, as long as the reorg branch leaves those ledgers alone and every event
request is answered in full. -/
namespace Octraban.Indexer

variable {H : Type*} {hash : List Block → H} {config : IndexerConfig}

namespace State
variable (s : State H)

def Stored (event : LedgerEvent) : Prop := ∃ i, event.row i ∈ s.events

/-- The row of the ledger is stored, and so are its events, as a chain that answered
an event request for it has them. -/
def Processed (n : Nat) : Prop :=
  (s.ledgers n).isSome = true ∧ ∃ start stop chain, (start, stop, chain) ∈ s.served ∧ start ≤ n ∧
    n ≤ stop ∧ n ≤ chain.tip ∧ ∀ event ∈ chain.eventsAt n, s.Stored event

def Covered (start last : Nat) : Prop := ∀ n, start < n → n ≤ last → s.Processed n

/-- What syncToLatest takes for processed: the cursor, and the end of what it saves next. -/
def relied (config : IndexerConfig) : Nat :=
  match s.sync with
  | .idle | .read _ | .resolve _ => s.cursor config
  | .gap _ last => max (s.cursor config) last
  | .waiting round => max (s.cursor config) round.last
  | .save round => max (s.cursor config) round.stop

end State

/-- A rollback deletes only above what is relied on, and no ledger of a round its
worker does not belong to; its cursor write does not go forward. -/
def State.mayRollBack (config : IndexerConfig) (s : State H) (k prevSeq : Nat) : Bool :=
  s.relied config < prevSeq && match s.sync with
    | .waiting round => round.base ≤ k
    | .idle | .read _ | .resolve _ | .gap .. | .save _ => true

/-- The reorg branch stays above the cursor, a page that ends the listing has the
rest of the range, the network has the range and keeps it between two pages, and an
event id names one event. -/
def undisturbed (config : IndexerConfig) (s : State H) : Act → Bool
  | .work k fallback =>
    s.workers[k]?.all fun w => match w.phase with
      | .rollback prevSeq => s.mayRollBack config k prevSeq
      | .reset prevSeq => prevSeq - 1 ≤ s.relied config
      | .fetchEvents offset _ => w.stop ≤ s.chain.tip && (!fallback ||
          ((s.chain.eventsFrom w.start).drop (offset + EVENT_PAGE_SIZE)).all fun event =>
            w.stop < event.ledgerSequence)
      | .upsertEvent i event _ =>
        s.events.all fun row => row.id ≠ event.eventId i || row = event.row i
      | _ => true
  | .reorg fork _ _ => s.workers.all fun w => match w.phase with
      | .fetchEvents offset _ => offset = 0 || w.stop < fork
      | _ => true
  | .sync _ | .orchestrate | .orchestrateFails | .fails _ | .expire _ => true

/-- The worker will throw. -/
def Phase.dooms : Phase H → Bool
  | .reset _ | .failed => true
  | _ => false

def State.Rows (s : State H) (start next : Nat) : Prop :=
  ∀ n, start ≤ n → n < next → (s.ledgers n).isSome = true

/-- Pages fetched so far, from chains with the same range. -/
def State.Fetching (s : State H) (w : Worker H) (offset : Nat) (events : List LedgerEvent) : Prop :=
  offset = 0 ∧ events = [] ∨ ∃ c, (w.start, w.stop, c) ∈ s.served ∧ w.stop ≤ c.tip ∧
    (∀ n ≤ w.stop, c.block n = s.chain.block n) ∧
    events = (c.eventsBetween w.start w.stop).take offset

/-- Every event of the range is stored or in `rest`. -/
def State.Fetched (s : State H) (w : Worker H) (rest : List LedgerEvent) : Prop :=
  ∃ c, (w.start, w.stop, c) ∈ s.served ∧ w.stop ≤ c.tip ∧
    ∀ event ∈ c.eventsBetween w.start w.stop, s.Stored event ∨ event ∈ rest

/-- How far a worker has got. -/
def Progress (s : State H) (w : Worker H) : Prop :=
  w.start ≤ w.stop + 1 ∧ match w.phase with
    | .metadata seq | .findPrev seq _ | .upsertLedger seq _ =>
      w.start ≤ seq ∧ seq ≤ w.stop ∧ s.Rows w.start seq
    | .fetchEvents offset events => s.Rows w.start (w.stop + 1) ∧ s.Fetching w offset events
    | .findTx _ event rest | .upsertTx _ event rest | .upsertEvent _ event rest =>
      s.Rows w.start (w.stop + 1) ∧ s.Fetched w (event :: rest)
    | .authorize _ rest => s.Rows w.start (w.stop + 1) ∧ s.Fetched w rest
    | .done => s.Rows w.start (w.stop + 1) ∧ s.Fetched w []
    | .reorgEvent _ | .rollback _ | .reset _ | .failed => True

def State.Doomed (s : State H) (round : Round) : Prop :=
  ∃ k w, round.base ≤ k ∧ s.workers[k]? = some w ∧ w.phase.dooms = true

/-- The workers of a round cover what it saves; unless one of them throws, all progress. -/
structure InRound (s : State H) (round : Round) : Prop where
  base : round.base ≤ s.workers.length
  covers : ∀ n, round.last < n → n ≤ round.stop →
    ∃ k w, round.base ≤ k ∧ s.workers[k]? = some w ∧ w.start ≤ n ∧ n ≤ w.stop
  progress : s.Doomed round ∨ ∀ k w, round.base ≤ k → s.workers[k]? = some w → Progress s w

structure Sound (config : IndexerConfig) (s : State H) : Prop where
  covered : s.Covered config.indexerStartLedger (s.relied config)
  round : ∀ round, s.sync = .waiting round → InRound s round
  gap : ∀ target last, s.sync = .gap target last → last + 1 < target

/-- Nothing stored is lost, and the network stays. -/
structure Extends (s t : State H) : Prop where
  ledgers : ∀ n, (s.ledgers n).isSome = true → (t.ledgers n).isSome = true
  events : ∀ row ∈ s.events, row ∈ t.events
  served : ∀ answer ∈ s.served, answer ∈ t.served
  chain : ∀ n, t.chain.block n = s.chain.block n

theorem Extends.refl (s : State H) : Extends s s :=
  ⟨fun _ x => x, fun _ x => x, fun _ x => x, fun _ => rfl⟩

theorem Extends.stored {s t : State H} (grows : Extends s t) {event : LedgerEvent}
    (stored : s.Stored event) : t.Stored event := by
  obtain ⟨i, member⟩ := stored
  exact ⟨i, grows.events _ member⟩

theorem Extends.processed {s t : State H} (grows : Extends s t) {n : Nat} (processed : s.Processed n) :
    t.Processed n := by
  obtain ⟨row, start, stop, chain, answered, lower, upper, within, stored⟩ := processed
  exact ⟨grows.ledgers n row, start, stop, chain, grows.served _ answered, lower, upper, within,
    fun event member => grows.stored (stored event member)⟩

theorem State.Covered.extend {s t : State H} {start last earlier : Nat} (covered : s.Covered start last)
    (grows : Extends s t) (less : earlier ≤ last) : t.Covered start earlier :=
  fun n above below => grows.processed (covered n above (Nat.le_trans below less))

theorem State.Rows.extend {s t : State H} {start next : Nat} (rows : s.Rows start next)
    (grows : Extends s t) : t.Rows start next :=
  fun n above below => grows.ledgers n (rows n above below)

theorem State.Fetched.extend {s t : State H} {w : Worker H} {rest : List LedgerEvent}
    (fetched : s.Fetched w rest) (grows : Extends s t) : t.Fetched w rest := by
  obtain ⟨c, answered, within, stored⟩ := fetched
  exact ⟨c, grows.served _ answered, within, fun event member => (stored event member).imp_left grows.stored⟩

theorem State.Fetching.extend {s t : State H} {w : Worker H} {offset : Nat} {events : List LedgerEvent}
    (fetching : s.Fetching w offset events) (grows : Extends s t) : t.Fetching w offset events := by
  rcases fetching with begun | ⟨c, answered, within, same, events⟩
  · exact .inl begun
  · exact .inr ⟨c, grows.served _ answered, within,
      fun n below => (same n below).trans (grows.chain n).symm, events⟩

theorem Progress.extend {s t : State H} {w : Worker H} (progress : Progress s w) (grows : Extends s t) :
    Progress t w := by
  obtain ⟨ordered, progress⟩ := progress
  refine ⟨ordered, ?_⟩
  obtain ⟨start, stop, phase⟩ := w
  cases phase with
  | metadata | findPrev | upsertLedger =>
    exact ⟨progress.1, progress.2.1, progress.2.2.extend grows⟩
  | fetchEvents => exact ⟨progress.1.extend grows, progress.2.extend grows⟩
  | findTx | upsertTx | upsertEvent | authorize | done =>
    exact ⟨progress.1.extend grows, progress.2.extend grows⟩
  | reorgEvent | rollback | reset | failed => trivial

theorem setPhase_self {s : State H} {k : Nat} {w : Worker H} (found : s.workers[k]? = some w)
    (phase : Phase H) : (s.setPhase k w phase).workers[k]? = some { w with phase := phase } := by
  obtain ⟨bound, -⟩ := List.getElem?_eq_some_iff.mp found
  simp [State.setPhase, bound]

theorem setPhase_ne {s : State H} {k j : Nat} (w : Worker H) (phase : Phase H) (other : j ≠ k) :
    (s.setPhase k w phase).workers[j]? = s.workers[j]? := by
  simp [State.setPhase, other.symm]

/-- A worker's step: `t` has its effect, `phase` is its next call. -/
theorem Sound.advance {s t : State H} {k : Nat} {w : Worker H} {phase : Phase H}
    (sound : Sound config s) (found : s.workers[k]? = some w) (workers : t.workers = s.workers)
    (sync : t.sync = s.sync) (covered : t.Covered config.indexerStartLedger (t.relied config))
    (stays : w.phase.dooms = true → phase.dooms = true)
    (others : ∀ round, s.sync = .waiting round → ¬(round.base ≤ k ∧ phase.dooms = true) →
      ∀ v, Progress s v → Progress t v)
    (own : phase.dooms = true ∨ (Progress s w → Progress t { w with phase := phase })) :
    Sound config (t.setPhase k w phase) := by
  rw [← workers] at found
  refine ⟨covered, fun round waiting => ?_, fun target last gap => sound.gap target last (sync.symm.trans gap)⟩
  have waits : s.sync = .waiting round := sync.symm.trans waiting
  obtain ⟨base, covers, progress⟩ := sound.round round waits
  rw [← workers] at base covers
  rw [State.Doomed, ← workers] at progress
  refine ⟨?_, fun n above below => ?_, ?_⟩
  · simpa [State.setPhase] using base
  · obtain ⟨j, v, member, at_, lower, upper⟩ := covers n above below
    by_cases same : j = k
    · subst same
      cases found.symm.trans at_
      exact ⟨j, _, member, setPhase_self found phase, lower, upper⟩
    · exact ⟨j, v, member, (setPhase_ne w phase same).trans at_, lower, upper⟩
  · by_cases dooms : round.base ≤ k ∧ phase.dooms = true
    · exact .inl ⟨k, _, dooms.1, setPhase_self found phase, dooms.2⟩
    · rcases progress with ⟨j, v, member, at_, doomed⟩ | progress
      · by_cases same : j = k
        · subst same
          cases found.symm.trans at_
          exact absurd ⟨member, stays doomed⟩ dooms
        · exact .inl ⟨j, v, member, (setPhase_ne w phase same).trans at_, doomed⟩
      · refine .inr fun j v member at_ => ?_
        by_cases same : j = k
        · subst same
          cases (setPhase_self found phase).symm.trans at_
          rcases own with doomed | progresses
          · exact absurd ⟨member, doomed⟩ dooms
          · exact progresses (progress j w member found)
        · exact others round waits dooms v (progress j v member ((setPhase_ne w phase same).symm.trans at_))

theorem relied_eq {s t : State H} (sync : t.sync = s.sync) (lastLedger : t.lastLedger = s.lastLedger) :
    t.relied config = s.relied config := by
  simp only [State.relied, State.cursor, sync, lastLedger]

/-- A worker's step that only adds rows. -/
theorem Sound.extend {s t : State H} {k : Nat} {w : Worker H} {phase : Phase H} (sound : Sound config s)
    (found : s.workers[k]? = some w) (grows : Extends s t) (workers : t.workers = s.workers)
    (sync : t.sync = s.sync) (lastLedger : t.lastLedger = s.lastLedger) (steady : w.phase.dooms = false)
    (own : phase.dooms = true ∨ (Progress s w → Progress t { w with phase := phase })) :
    Sound config (t.setPhase k w phase) := by
  apply sound.advance found workers sync
  · rw [relied_eq sync lastLedger]
    exact sound.covered.extend grows (Nat.le_refl _)
  · intro doomed
    rw [steady] at doomed
    contradiction
  · exact fun _ _ _ v progress => progress.extend grows
  · exact own

theorem metadata_sound [DecidableEq H] {s : State H} {k start stop seq : Nat} (fallback : Bool)
    (sound : Sound config s) (found : s.workers[k]? = some ⟨start, stop, .metadata seq⟩) :
    Sound config ((s.fetchLedgerMetadata hash seq fallback).1.setPhase k ⟨start, stop, .metadata seq⟩
      (s.fetchLedgerMetadata hash seq fallback).2) := by
  unfold State.fetchLedgerMetadata
  split
  · split
    · exact sound.extend found (.refl s) rfl rfl rfl rfl (.inr id)
    · split
      · exact sound.extend found { Extends.refl s with } rfl rfl rfl rfl (.inr id)
      · exact sound.extend found (.refl s) rfl rfl rfl rfl (.inl rfl)
  · split
    · exact sound.extend found (.refl s) rfl rfl rfl rfl (.inr id)
    · exact sound.extend found (.refl s) rfl rfl rfl rfl (.inl rfl)

theorem findPrev_sound [DecidableEq H] {s : State H} {k start stop seq : Nat} {ledgerMeta : LedgerMeta H}
    (sound : Sound config s) (found : s.workers[k]? = some ⟨start, stop, .findPrev seq ledgerMeta⟩) :
    Sound config (s.setPhase k ⟨start, stop, .findPrev seq ledgerMeta⟩ (s.findPrev seq ledgerMeta)) := by
  apply sound.extend found (.refl s) rfl rfl rfl rfl
  unfold State.findPrev
  split
  · split
    · exact .inr fun progress => ⟨progress.1, trivial⟩
    · exact .inr id
  · exact .inr id

/-- A rollback keeps what is relied on; the round of the worker will not be saved. -/
theorem rollback_sound {s : State H} {k start stop prevSeq : Nat} (sound : Sound config s)
    (found : s.workers[k]? = some ⟨start, stop, .rollback prevSeq⟩)
    (allowed : s.mayRollBack config k prevSeq = true) :
    Sound config ((s.rollbackLedger prevSeq).1.setPhase k ⟨start, stop, .rollback prevSeq⟩
      (s.rollbackLedger prevSeq).2) := by
  unfold State.mayRollBack at allowed
  rw [Bool.and_eq_true, decide_eq_true_eq] at allowed
  obtain ⟨above, member⟩ := allowed
  unfold State.rollbackLedger
  dsimp only
  split
  · exact sound.extend found (.refl s) rfl rfl rfl rfl (.inl rfl)
  · refine sound.advance found ?_ ?_ ?_ ?_ ?_ ?_
    · rfl
    · rfl
    · intro n later earlier
      have less : n ≤ s.relied config := earlier
      have other : n ≠ prevSeq := by omega
      obtain ⟨row, first, last, chain, answered, lower, upper, within, stored⟩ :=
        sound.covered n later less
      refine ⟨?_, first, last, chain, answered, lower, upper, within, fun event at_ => ?_⟩
      · change (Function.update s.ledgers prevSeq none n).isSome = true
        rw [Function.update_of_ne other]
        exact row
      · obtain ⟨i, kept⟩ := stored event at_
        refine ⟨i, List.mem_filter.mpr ⟨kept, ?_⟩⟩
        have named : (event.row i).ledgerSequence = n := (Chain.eventsAt_ledger at_).1
        rw [named]
        exact decide_eq_true other
    · exact fun _ => rfl
    · intro round waiting others
      rw [waiting] at member
      exact absurd ⟨of_decide_eq_true member, rfl⟩ others
    · exact .inl rfl

/-- A cursor write that does not go forward. -/
theorem reset_sound {s : State H} {k start stop prevSeq : Nat} (sound : Sound config s)
    (found : s.workers[k]? = some ⟨start, stop, .reset prevSeq⟩)
    (allowed : prevSeq - 1 ≤ s.relied config) :
    Sound config (({ s with lastLedger := some (prevSeq - 1) } : State H).setPhase k
      ⟨start, stop, .reset prevSeq⟩ .failed) := by
  have grows : Extends s { s with lastLedger := some (prevSeq - 1) } := { Extends.refl s with }
  refine sound.advance found ?_ ?_ ?_ ?_ ?_ ?_
  · rfl
  · rfl
  · refine sound.covered.extend grows ?_
    revert allowed
    unfold State.relied
    dsimp only
    split
    all_goals simp only [State.cursor, Option.getD_some]
    all_goals omega
  · exact fun _ => rfl
  · exact fun _ _ _ v progress => progress.extend grows
  · exact .inl rfl

theorem upsertLedger_sound {s : State H} {k start stop seq : Nat} {ledgerMeta : LedgerMeta H}
    (sound : Sound config s) (found : s.workers[k]? = some ⟨start, stop, .upsertLedger seq ledgerMeta⟩) :
    Sound config ((s.upsertLedger ⟨start, stop, .upsertLedger seq ledgerMeta⟩ seq ledgerMeta).1.setPhase k
      ⟨start, stop, .upsertLedger seq ledgerMeta⟩
      (s.upsertLedger ⟨start, stop, .upsertLedger seq ledgerMeta⟩ seq ledgerMeta).2) := by
  have grows : Extends s { s with ledgers := Function.update s.ledgers seq (some ledgerMeta) } := by
    refine { Extends.refl s with ledgers := fun n row => ?_ }
    change (Function.update s.ledgers seq (some ledgerMeta) n).isSome = true
    rw [Function.update_apply]
    split
    · rfl
    · exact row
  apply sound.extend found grows rfl rfl rfl rfl
  refine .inr fun ⟨ordered, lower, upper, rows⟩ => ?_
  have next : ({ s with ledgers := Function.update s.ledgers seq (some ledgerMeta) } : State H).Rows
      start (seq + 1) := by
    intro n above below
    change (Function.update s.ledgers seq (some ledgerMeta) n).isSome = true
    rw [Function.update_apply]
    split
    · rfl
    · exact rows n above (by omega)
  unfold State.upsertLedger
  dsimp only at upper ⊢
  by_cases more : seq < stop
  · rw [if_pos more]
    exact ⟨ordered, Nat.le_succ_of_le lower, more, next⟩
  · rw [if_neg more]
    obtain rfl : seq = stop := by omega
    exact ⟨ordered, next, .inl ⟨rfl, rfl⟩⟩

theorem process_progress {s : State H} {w : Worker H} {rest : List LedgerEvent} (i : Nat)
    (ordered : w.start ≤ w.stop + 1) (rows : s.Rows w.start (w.stop + 1)) (fetched : s.Fetched w rest) :
    Progress s { w with phase := process i rest } := by
  cases rest with
  | nil => exact ⟨ordered, rows, fetched⟩
  | cons event rest => exact ⟨ordered, rows, fetched⟩

/-- A page of the network's listing gives the next events of the range. -/
theorem getEvents_range {c : Chain} {start stop : Nat} (offset : Nat) (ordered : start ≤ stop + 1)
    (within : stop ≤ c.tip) :
    (c.getEvents start offset).filter (inRange start stop) =
        ((c.eventsBetween start stop).drop offset).take EVENT_PAGE_SIZE ∧
      ((∀ event ∈ c.getEvents start offset, inRange start stop event = false) →
        (c.eventsBetween start stop).length ≤ offset) ∧
      ((c.getEvents start offset).length < EVENT_PAGE_SIZE →
        (c.eventsBetween start stop).length ≤ offset + EVENT_PAGE_SIZE) ∧
      ((∀ event ∈ (c.eventsFrom start).drop (offset + EVENT_PAGE_SIZE), inRange start stop event = false) →
        (c.eventsBetween start stop).length ≤ offset + EVENT_PAGE_SIZE) := by
  obtain ⟨later, split, beyond⟩ := Chain.eventsFrom_split ordered within
  have kept : ∀ event ∈ c.eventsBetween start stop, inRange start stop event = true := by
    intro event member
    obtain ⟨lower, upper, -⟩ := Chain.mem_eventsBetween.mp member
    exact decide_eq_true ⟨lower, upper⟩
  have dropped : ∀ event ∈ later, inRange start stop event = false := by
    intro event member
    have outside := beyond event member
    exact decide_eq_false fun inside => by omega
  unfold Chain.getEvents
  rw [split]
  refine ⟨filter_page kept dropped offset _, past_inside kept (by decide), fun short => ?_, fun none => ?_⟩
  · rw [List.length_take, List.length_drop, List.length_append] at short
    omega
  · have page : ∀ event ∈ ((c.eventsBetween start stop ++ later).drop (offset + EVENT_PAGE_SIZE)).take 1,
        inRange start stop event = false := fun event member => none event (List.mem_of_mem_take member)
    exact past_inside kept Nat.one_pos page

theorem State.Fetching.events_eq {s : State H} {w : Worker H} {offset : Nat} {events : List LedgerEvent}
    (fetching : s.Fetching w offset events) (within : w.stop ≤ s.chain.tip) :
    events = (s.chain.eventsBetween w.start w.stop).take offset := by
  rcases fetching with ⟨rfl, rfl⟩ | ⟨c, -, exists_, same, rfl⟩
  · rfl
  · have agree : Chain.Agree c s.chain w.stop := ⟨exists_, within, same⟩
    rw [agree.eventsBetween]

/-- The page that ends the listing leaves nothing of the range unfetched. -/
theorem fetched_all {s : State H} {w : Worker H} {n : Nat}
    (served : (w.start, w.stop, s.chain) ∈ s.served) (within : w.stop ≤ s.chain.tip)
    (all : (s.chain.eventsBetween w.start w.stop).length ≤ n) :
    s.Fetched w ((s.chain.eventsBetween w.start w.stop).take n) := by
  refine ⟨s.chain, served, within, fun event member => .inr ?_⟩
  rw [List.take_of_length_le all]
  exact member

theorem fetchEvents_progress {s : State H} {start stop offset : Nat} {events : List LedgerEvent}
    (fallback : Bool) (within : stop ≤ s.chain.tip)
    (whole : fallback = true → ∀ event ∈ (s.chain.eventsFrom start).drop (offset + EVENT_PAGE_SIZE),
      stop < event.ledgerSequence)
    (progress : Progress s ⟨start, stop, .fetchEvents offset events⟩) :
    Progress (s.fetchEvents ⟨start, stop, .fetchEvents offset events⟩ offset events fallback).1
      ⟨start, stop, (s.fetchEvents ⟨start, stop, .fetchEvents offset events⟩ offset events fallback).2⟩ := by
  obtain ⟨ordered, rows, fetching⟩ := progress
  dsimp only at ordered rows
  obtain rfl : events = (s.chain.eventsBetween start stop).take offset := fetching.events_eq within
  obtain ⟨kept, past, short, last⟩ := getEvents_range offset ordered within
  have outside {event : LedgerEvent} (beyond : stop < event.ledgerSequence) :
      inRange start stop event = false := decide_eq_false fun inside => by omega
  -- the events after this page
  let t : State H := { s with served := (start, stop, s.chain) :: s.served }
  have ends {n : Nat} (all : (s.chain.eventsBetween start stop).length ≤ n) :
      Progress t ⟨start, stop, process 0 ((s.chain.eventsBetween start stop).take n)⟩ := by
    let w : Worker H := ⟨start, stop, .done⟩
    have fetched : t.Fetched w ((s.chain.eventsBetween start stop).take n) :=
      fetched_all List.mem_cons_self within all
    have stored : t.Rows start (stop + 1) := rows
    exact process_progress 0 ordered stored fetched
  unfold State.fetchEvents
  dsimp only
  rw [kept, ← List.take_add]
  split
  · rename_i empty
    apply ends
    apply past
    rw [List.isEmpty_iff.mp empty]
    exact fun event member => absurd member List.not_mem_nil
  · split
    · rename_i beyond
      rw [List.all_eq_true] at beyond
      exact ends (past fun event member => outside (of_decide_eq_true (beyond event member)))
    · split
      · rename_i partial_
        exact ends (short partial_)
      · rename_i full
        split
        · rename_i tokenless
          exact ends (last fun event member => outside (whole tokenless event member))
        · have length : (s.chain.getEvents start offset).length = EVENT_PAGE_SIZE := by
            have most : (s.chain.getEvents start offset).length ≤ EVENT_PAGE_SIZE := List.length_take_le _ _
            omega
          rw [length]
          exact ⟨ordered, rows, .inr ⟨s.chain, List.mem_cons_self, within, fun _ _ => rfl, rfl⟩⟩

theorem fetchEvents_sound {s : State H} {k start stop offset : Nat} {events : List LedgerEvent}
    (fallback : Bool) (sound : Sound config s)
    (found : s.workers[k]? = some ⟨start, stop, .fetchEvents offset events⟩) (within : stop ≤ s.chain.tip)
    (whole : fallback = true → ∀ event ∈ (s.chain.eventsFrom start).drop (offset + EVENT_PAGE_SIZE),
      stop < event.ledgerSequence) :
    Sound config
      ((s.fetchEvents ⟨start, stop, .fetchEvents offset events⟩ offset events fallback).1.setPhase k
        ⟨start, stop, .fetchEvents offset events⟩
        (s.fetchEvents ⟨start, stop, .fetchEvents offset events⟩ offset events fallback).2) := by
  have grows : Extends s { s with served := (start, stop, s.chain) :: s.served } :=
    { Extends.refl s with served := fun _ member => List.mem_cons_of_mem _ member }
  have asked : (s.fetchEvents ⟨start, stop, .fetchEvents offset events⟩ offset events fallback).1 =
      { s with served := (start, stop, s.chain) :: s.served } := by
    unfold State.fetchEvents
    dsimp only
    repeat' split
    all_goals rfl
  rw [asked]
  apply sound.extend found grows rfl rfl rfl rfl
  right
  intro progress
  have fetched := fetchEvents_progress fallback within whole progress
  rw [asked] at fetched
  exact fetched

theorem findTx_sound {s : State H} {k start stop i : Nat} {event : LedgerEvent} {rest : List LedgerEvent}
    (sound : Sound config s) (found : s.workers[k]? = some ⟨start, stop, .findTx i event rest⟩) :
    Sound config (s.setPhase k ⟨start, stop, .findTx i event rest⟩ (s.findTx i event rest)) := by
  apply sound.extend found (.refl s) rfl rfl rfl rfl
  unfold State.findTx
  split
  · exact .inr id
  · exact .inr id

theorem upsertTx_sound {s : State H} {k start stop i : Nat} {event : LedgerEvent} {rest : List LedgerEvent}
    (sound : Sound config s) (found : s.workers[k]? = some ⟨start, stop, .upsertTx i event rest⟩) :
    Sound config ((s.upsertTx i event rest).1.setPhase k ⟨start, stop, .upsertTx i event rest⟩
      (s.upsertTx i event rest).2) := by
  unfold State.upsertTx
  split
  · exact sound.extend found (.refl s) rfl rfl rfl rfl (.inr id)
  · split
    · have grows : Extends s { s with
          transactions := ⟨event.transactionHash, event.ledgerSequence⟩ :: s.transactions } :=
        { Extends.refl s with }
      exact sound.extend found grows rfl rfl rfl rfl (.inr fun progress => Progress.extend progress grows)
    · exact sound.extend found (.refl s) rfl rfl rfl rfl (.inl rfl)

/-- Stored now or before, the event leaves the list. -/
theorem State.Fetched.next {s : State H} {w : Worker H} {event : LedgerEvent} {rest : List LedgerEvent}
    (fetched : s.Fetched w (event :: rest)) (stored : s.Stored event) : s.Fetched w rest := by
  obtain ⟨c, served, within, remaining⟩ := fetched
  refine ⟨c, served, within, fun other member => ?_⟩
  rcases remaining other member with already | listed
  · exact .inl already
  · rcases List.mem_cons.mp listed with rfl | later
    · exact .inl stored
    · exact .inr later

theorem upsertEvent_sound {s : State H} {k start stop i : Nat} {event : LedgerEvent}
    {rest : List LedgerEvent} (sound : Sound config s)
    (found : s.workers[k]? = some ⟨start, stop, .upsertEvent i event rest⟩)
    (named : ∀ row ∈ s.events, row.id = event.eventId i → row = event.row i) :
    Sound config ((s.upsertEvent i event rest).1.setPhase k ⟨start, stop, .upsertEvent i event rest⟩
      (s.upsertEvent i event rest).2) := by
  unfold State.upsertEvent
  split
  · rename_i exists_
    obtain ⟨row, member, same⟩ := List.any_eq_true.mp exists_
    have stored : s.Stored event := ⟨i, named row member (of_decide_eq_true same) ▸ member⟩
    apply sound.extend found (.refl s) rfl rfl rfl rfl
    exact .inr fun ⟨ordered, rows, fetched⟩ => ⟨ordered, rows, State.Fetched.next fetched stored⟩
  · split
    · have grows : Extends s { s with events := event.row i :: s.events } :=
        { Extends.refl s with events := fun _ member => List.mem_cons_of_mem _ member }
      apply sound.extend found grows rfl rfl rfl rfl
      refine .inr fun ⟨ordered, rows, fetched⟩ => ⟨ordered, rows.extend grows, ?_⟩
      exact (fetched.extend grows).next ⟨i, List.mem_cons_self⟩
    · exact sound.extend found (.refl s) rfl rfl rfl rfl (.inl rfl)

theorem authorize_sound {s : State H} {k start stop i : Nat} {rest : List LedgerEvent}
    (sound : Sound config s) (found : s.workers[k]? = some ⟨start, stop, .authorize i rest⟩) :
    Sound config (s.setPhase k ⟨start, stop, .authorize i rest⟩ (process (i + 1) rest)) := by
  apply sound.extend found (.refl s) rfl rfl rfl rfl
  exact .inr fun ⟨ordered, rows, fetched⟩ => process_progress (i + 1) ordered rows fetched

/-- A failing call leaves its round unsaved. -/
theorem fails_sound {s : State H} {k : Nat} {w : Worker H} (sound : Sound config s)
    (found : s.workers[k]? = some w) : Sound config (s.setPhase k w .failed) := by
  apply sound.advance found rfl rfl sound.covered
  · exact fun _ => rfl
  · exact fun _ _ _ _ progress => progress
  · exact .inl rfl

theorem work_sound [DecidableEq H] {s t : State H} {k : Nat} {fallback : Bool} (sound : Sound config s)
    (allowed : undisturbed config s (.work k fallback) = true)
    (stepped : step hash config s (.work k fallback) = some t) : Sound config t := by
  obtain ⟨⟨start, stop, phase⟩, found, moved⟩ := Option.bind_eq_some_iff.mp stepped
  simp only [undisturbed, found, Option.all_some] at allowed
  dsimp only at moved
  split at moved
  · contradiction
  · rename_i running
    cases moved
    cases phase with
    | metadata seq => exact metadata_sound fallback sound found
    | findPrev seq ledgerMeta => exact findPrev_sound sound found
    | reorgEvent seq =>
      exact sound.extend found (.refl s) rfl rfl rfl rfl (.inr fun progress => ⟨progress.1, trivial⟩)
    | rollback prevSeq => exact rollback_sound sound found allowed
    | reset prevSeq => exact reset_sound sound found (of_decide_eq_true allowed)
    | upsertLedger seq ledgerMeta => exact upsertLedger_sound sound found
    | fetchEvents offset events =>
      rw [Bool.and_eq_true, decide_eq_true_eq] at allowed
      obtain ⟨within, tokens⟩ := allowed
      apply fetchEvents_sound fallback sound found within
      intro tokenless event member
      subst tokenless
      exact of_decide_eq_true (List.all_eq_true.mp tokens event member)
    | findTx i event rest => exact findTx_sound sound found
    | upsertTx i event rest => exact upsertTx_sound sound found
    | upsertEvent i event rest =>
      apply upsertEvent_sound sound found
      intro row member same
      have named := List.all_eq_true.mp allowed row member
      rw [Bool.or_eq_true, decide_eq_true_eq, decide_eq_true_eq] at named
      exact named.resolve_left fun differs => differs same
    | authorize i rest => exact authorize_sound sound found
    | done | failed => exact absurd rfl running

/-- The chunks of a range miss none of its ledgers. -/
theorem chunksFrom_covers {size stop n : Nat} (positive : 0 < size) {fuel start : Nat}
    (enough : stop + 1 - start ≤ fuel) (lower : start ≤ n) (upper : n ≤ stop) :
    ∃ chunk ∈ chunksFrom size stop fuel start, chunk.1 ≤ n ∧ n ≤ chunk.2 := by
  induction fuel generalizing start with
  | zero => omega
  | succ fuel ih =>
    rw [chunksFrom, if_pos (Nat.le_trans lower upper)]
    by_cases here : n < start + size
    · exact ⟨_, List.mem_cons_self, lower, by simp only; omega⟩
    · have less : stop + 1 - (start + size) ≤ fuel := by omega
      have later : start + size ≤ n := Nat.le_of_not_lt here
      obtain ⟨chunk, listed, inside⟩ := ih less later
      exact ⟨chunk, List.mem_cons_of_mem _ listed, inside⟩

theorem chunksFrom_ordered {size stop fuel start : Nat} (positive : 0 < size) :
    ∀ chunk ∈ chunksFrom size stop fuel start, chunk.1 ≤ chunk.2 := by
  induction fuel generalizing start with
  | zero => exact fun chunk listed => absurd listed List.not_mem_nil
  | succ fuel ih =>
    rw [chunksFrom]
    split
    · intro chunk listed
      rcases List.mem_cons.mp listed with rfl | later
      · simp only
        omega
      · exact ih chunk later
    · exact fun chunk listed => absurd listed List.not_mem_nil

theorem chunkRange_size {start stop n : Nat} (ordered : start ≤ stop) (positive : 0 < n) :
    0 < (stop + 1 - start + n - 1) / n := by
  rw [Nat.div_pos_iff]
  omega

theorem spawn_sound {s : State H} {round : Round} {chunks : List (Nat × Nat)}
    (covered : s.Covered config.indexerStartLedger (max (s.cursor config) round.last))
    (covers : ∀ n, round.last < n → n ≤ round.stop → ∃ chunk ∈ chunks, chunk.1 ≤ n ∧ n ≤ chunk.2)
    (ordered : ∀ chunk ∈ chunks, chunk.1 ≤ chunk.2) : Sound config (s.spawn round chunks) := by
  have member {k : Nat} (above : s.workers.length ≤ k) : (s.spawn round chunks).workers[k]? =
      chunks[k - s.workers.length]?.map fun chunk => Worker.begin chunk.1 chunk.2 := by
    rw [State.spawn, List.getElem?_append_right above, List.getElem?_map]
  refine ⟨covered, fun _ waiting => ?_, fun _ _ => nofun⟩
  cases waiting
  refine ⟨?_, fun n above below => ?_, .inr fun k w above at_ => ?_⟩
  · simp [State.spawn]
  · obtain ⟨chunk, listed, lower, upper⟩ := covers n above below
    obtain ⟨j, found⟩ := List.mem_iff_getElem?.mp listed
    refine ⟨s.workers.length + j, Worker.begin chunk.1 chunk.2, Nat.le_add_right _ _, ?_, lower, upper⟩
    rw [member (Nat.le_add_right _ _), Nat.add_sub_cancel_left, found]
    rfl
  · rw [member above, Option.map_eq_some_iff] at at_
    obtain ⟨chunk, found, rfl⟩ := at_
    have start := ordered chunk (List.mem_of_getElem? found)
    unfold Worker.begin
    rw [if_pos start]
    exact ⟨Nat.le_succ_of_le start, Nat.le_refl _, start, fun n above below => by simp only at above; omega⟩

/-- What the workers of a completed round cover has been processed. -/
theorem completed_covered {s : State H} {round : Round} (sound : Sound config s)
    (waiting : s.sync = .waiting round)
    (ended : ∀ w ∈ s.workers.drop round.base, w.phase.isDone = true) :
    s.Covered config.indexerStartLedger (max (s.cursor config) round.stop) := by
  obtain ⟨-, covers, progress⟩ := sound.round round waiting
  have completed {k : Nat} {w : Worker H} (above : round.base ≤ k) (found : s.workers[k]? = some w) :
      w.phase = .done := by
    have listed : w ∈ s.workers.drop round.base := by
      rw [List.mem_iff_getElem?]
      exact ⟨k - round.base, by rw [List.getElem?_drop, Nat.add_sub_cancel' above, found]⟩
    have isDone := ended w listed
    cases phase : w.phase with
    | done => rfl
    | _ =>
      rw [phase] at isDone
      contradiction
  have progress : ∀ k w, round.base ≤ k → s.workers[k]? = some w → Progress s w := by
    rcases progress with ⟨k, w, above, found, dooms⟩ | progress
    · rw [completed above found] at dooms
      contradiction
    · exact progress
  have relied : s.relied config = max (s.cursor config) round.last := by rw [State.relied, waiting]
  intro n above below
  by_cases earlier : n ≤ s.relied config
  · exact sound.covered n above earlier
  · obtain ⟨k, ⟨start, stop, phase⟩, member, found, lower, upper⟩ := covers n (by omega) (by omega)
    have done : phase = .done := completed member found
    subst done
    obtain ⟨-, rows, c, served, within, stored⟩ := progress k _ member found
    refine ⟨rows n lower (Nat.lt_succ_of_le upper), start, stop, c, served, lower, upper,
      Nat.le_trans upper within, fun event at_ => ?_⟩
    have named := (Chain.eventsAt_ledger at_).1
    have listed : event ∈ c.eventsBetween start stop := by
      rw [Chain.mem_eventsBetween, named]
      exact ⟨lower, upper, at_⟩
    exact (stored event listed).resolve_right List.not_mem_nil

/-- A step after which no round runs. -/
theorem Sound.between {s t : State H} {last : Nat}
    (covered : s.Covered config.indexerStartLedger last) (grows : Extends s t)
    (less : t.relied config ≤ last) (waiting : ∀ round, t.sync ≠ .waiting round)
    (gap : ∀ target last, t.sync = .gap target last → last + 1 < target) : Sound config t :=
  ⟨covered.extend grows less, fun round waits => absurd waits (waiting round), gap⟩

theorem read_sound {s t : State H} {target : Nat} (sound : Sound config s)
    (calls : s.sync = .read target) (stepped : s.orchestrate config = some t) : Sound config t := by
  have covered : s.Covered config.indexerStartLedger (s.cursor config) := by
    have covered := sound.covered
    rw [State.relied, calls] at covered
    exact covered
  -- the row is created with the value read
  let s' : State H := { s with lastLedger := some (s.cursor config) }
  have grows : Extends s s' := { Extends.refl s with }
  have relied : s'.Covered config.indexerStartLedger (max (s'.cursor config) (s.cursor config)) :=
    covered.extend grows (Nat.le_of_eq (Nat.max_self _))
  simp only [State.orchestrate, calls] at stepped
  split at stepped
  · cases stepped
    exact Sound.between covered { Extends.refl s with } (Nat.le_refl _) (fun _ => nofun) fun _ _ => nofun
  · split at stepped
    · rename_i ahead
      cases stepped
      refine Sound.between covered { Extends.refl s with } ?_ ?_ ?_
      · exact Nat.le_of_eq (Nat.max_self _)
      · exact fun _ => nofun
      · intro _ _ gap
        cases gap
        exact ahead
    · split at stepped
      · cases stepped
        have ordered : s.cursor config + 1 ≤ target := by omega
        have size := chunkRange_size ordered config.workers_pos
        apply spawn_sound relied
        · exact fun n above below => chunksFrom_covers size (Nat.le_refl _) above below
        · exact chunksFrom_ordered size
      · cases stepped
        have batch := config.batch_pos
        apply spawn_sound relied
        · exact fun n above below => ⟨_, List.mem_singleton_self _, above, below⟩
        · intro chunk listed
          rw [List.mem_singleton.mp listed]
          simp only
          omega

theorem gap_sound {s t : State H} {target last : Nat} (sound : Sound config s)
    (calls : s.sync = .gap target last) (stepped : s.orchestrate config = some t) : Sound config t := by
  have covered := sound.covered
  have ahead := sound.gap target last calls
  have ordered : last + 1 ≤ target - 1 := by omega
  have size := chunkRange_size ordered config.workers_pos
  rw [State.relied, calls] at covered
  simp only [State.orchestrate, calls] at stepped
  cases stepped
  apply spawn_sound covered
  · intro n above below
    split
    · exact chunksFrom_covers size (Nat.le_refl _) above below
    · exact ⟨_, List.mem_singleton_self _, above, below⟩
  · split
    · exact chunksFrom_ordered size
    · intro chunk listed
      rw [List.mem_singleton.mp listed]
      exact ordered

theorem waiting_sound {s t : State H} {round : Round} (sound : Sound config s)
    (calls : s.sync = .waiting round) (stepped : s.orchestrate config = some t) : Sound config t := by
  simp only [State.orchestrate, calls] at stepped
  split at stepped
  · rename_i all
    cases stepped
    have saved := completed_covered sound calls (List.all_eq_true.mp all)
    exact Sound.between saved { Extends.refl s with } (Nat.le_refl _) (fun _ => nofun) fun _ _ => nofun
  · split at stepped
    · cases stepped
      have covered := sound.covered
      rw [State.relied, calls] at covered
      exact Sound.between covered { Extends.refl s with } (Nat.le_max_left _ _) (fun _ => nofun)
        fun _ _ => nofun
    · contradiction

theorem save_sound {s t : State H} {round : Round} (sound : Sound config s)
    (calls : s.sync = .save round) (stepped : s.orchestrate config = some t) : Sound config t := by
  have covered := sound.covered
  rw [State.relied, calls] at covered
  simp only [State.orchestrate, calls] at stepped
  cases stepped
  obtain ⟨target, last, stop, base, backfill, returns⟩ := round
  have less : stop ≤ max (s.cursor config) stop := Nat.le_max_right _ _
  cases backfill <;> cases returns
  all_goals exact Sound.between covered { Extends.refl s with } less (fun _ => nofun) fun _ _ => nofun

theorem orchestrate_sound {s t : State H} (sound : Sound config s)
    (stepped : s.orchestrate config = some t) : Sound config t := by
  cases calls : s.sync with
  | idle =>
    simp only [State.orchestrate, calls] at stepped
    contradiction
  | read target => exact read_sound sound calls stepped
  | gap target last => exact gap_sound sound calls stepped
  | waiting round => exact waiting_sound sound calls stepped
  | save round => exact save_sound sound calls stepped
  | resolve target =>
    have covered := sound.covered
    rw [State.relied, calls] at covered
    simp only [State.orchestrate, calls] at stepped
    cases stepped
    exact Sound.between covered { Extends.refl s with } (Nat.le_refl _) (fun _ => nofun) fun _ _ => nofun

theorem cursor_le_relied (config : IndexerConfig) (s : State H) : s.cursor config ≤ s.relied config := by
  unfold State.relied
  split
  all_goals omega

theorem reorg_sound {s : State H} {fork tip : Nat} {block : Nat → Block} (sound : Sound config s)
    (allowed : undisturbed config s (.reorg fork block tip) = true) :
    Sound config { s with chain := s.chain.reorg fork block tip } := by
  refine ⟨sound.covered, fun round waiting => ?_, sound.gap⟩
  obtain ⟨base, covers, progress⟩ := sound.round round waiting
  refine ⟨base, covers, progress.imp_right fun progress k w above found => ?_⟩
  obtain ⟨ordered, reached⟩ := progress k w above found
  refine ⟨ordered, ?_⟩
  have kept := List.all_eq_true.mp allowed w (List.mem_of_getElem? found)
  obtain ⟨start, stop, phase⟩ := w
  cases phase with
  | fetchEvents offset events =>
    obtain ⟨rows, fetching⟩ := reached
    refine ⟨rows, ?_⟩
    rcases fetching with begun | ⟨c, served, within, same, listed⟩
    · exact .inl begun
    · rw [Bool.or_eq_true, decide_eq_true_eq, decide_eq_true_eq] at kept
      rcases kept with rfl | later
      · exact .inl ⟨rfl, listed⟩
      · refine .inr ⟨c, served, within, fun n below => ?_, listed⟩
        have inside : n < fork := Nat.lt_of_le_of_lt below later
        rw [same n below]
        exact (if_pos inside).symm
  | _ => exact reached

theorem step_sound [DecidableEq H] {s t : State H} {a : Act} (sound : Sound config s)
    (allowed : undisturbed config s a = true) (stepped : step hash config s a = some t) :
    Sound config t := by
  have relied : s.Covered config.indexerStartLedger (s.cursor config) :=
    sound.covered.extend (.refl s) (cursor_le_relied config s)
  cases a with
  | sync target =>
    simp only [step] at stepped
    split at stepped
    · cases stepped
      exact Sound.between relied { Extends.refl s with } (Nat.le_refl _) (fun _ => nofun) fun _ _ => nofun
    · contradiction
  | orchestrate => exact orchestrate_sound sound stepped
  | orchestrateFails =>
    simp only [step] at stepped
    split at stepped
    all_goals first
      | contradiction
      | cases stepped
        exact Sound.between relied { Extends.refl s with } (Nat.le_refl _) (fun _ => nofun)
          fun _ _ => nofun
  | work k fallback => exact work_sound sound allowed stepped
  | fails k =>
    obtain ⟨w, found, moved⟩ := Option.bind_eq_some_iff.mp stepped
    split at moved
    · contradiction
    · cases moved
      exact fails_sound sound found
  | reorg fork block tip =>
    simp only [step] at stepped
    split at stepped
    · cases stepped
      exact reorg_sound sound allowed
    · contradiction
  | expire seq =>
    cases stepped
    refine ⟨sound.covered, fun round waiting => ?_, sound.gap⟩
    obtain ⟨base, covers, progress⟩ := sound.round round waiting
    exact ⟨base, covers, progress⟩

theorem initial_sound (chain : Chain) : Sound config (.initial chain : State H) := by
  refine ⟨fun n above below => ?_, fun _ => nofun, fun _ _ => nofun⟩
  have start : n ≤ config.indexerStartLedger := below
  omega

/-- Every ledger of the network has one event. -/
def paid (header : String) : Nat → Block :=
  fun n => ⟨[⟨"CDLZ", header ++ toString n, ["transfer"], "100", ""⟩], header⟩

def batches : IndexerConfig := ⟨0, 10, 2, by decide, by decide⟩

/-- `n` calls of a worker in a row. -/
def works (k n : Nat) : List Act := List.replicate n (.work k false)

/-- Ledger 2 is replaced before ledger 3 is looked at; no event has been asked for yet. -/
def skipped : List Act :=
  [.sync 4, .orchestrate, .orchestrate] ++ works 0 6 ++ [.reorg 2 (paid "b") 4] ++ works 0 5

end Octraban.Indexer
