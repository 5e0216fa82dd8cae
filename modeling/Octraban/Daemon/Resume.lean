import Octraban.Core.Transition
import Octraban.Daemon.Ingestion
import Mathlib.Data.List.Perm.Subperm

/-! index.js as a process that crashes and restarts: `run` computes the cursor
from the highest stored ledger and `indexLedger` stores page after page, one
event at a time. Between two steps anything may fail. -/
namespace Octraban.Resume
open Daemon

/-- The RPC or database call the process waits for. -/
inductive Phase where
  | down
  | readMax
  | readLatest
  | idle
  | fetch (position : Position)
  | page (rest : List RpcEvent) (latestLedger : Int) (next : Option Nat)
  | save
  deriving DecidableEq

/-- `savedCursor` is the `daemon_state` row; `firstStart` remembers the ledger the
first start of all began with. -/
structure State where
  phase : Phase
  cursor : Int
  table : EventsTable
  savedCursor : Option Int
  height : Int
  firstStart : Option Int

/-- `store` decodes and inserts the next event of the page, with the text the
contract metadata gives it now. `fail` lets the code of the phase throw. -/
inductive Act where
  | close
  | restart
  | crash
  | proceed
  | store (function description : String)
  | fail
  deriving DecidableEq

def Phase.Running : Phase → Prop
  | .down | .readMax | .readLatest => False
  | .idle | .fetch _ | .page .. | .save => True

variable (log : EventLog) (START_LEDGER : Nat)

/-- `_cursor = …` at the end of the start-up. -/
def State.boot (s : State) (ledger : Int) : State :=
  { s with phase := .idle, cursor := ledger, firstStart := s.firstStart.or (some ledger) }

def proceed (s : State) : Option State :=
  match s.phase with
  | .readMax =>
    let dbMax := s.table.getMaxLedger
    if 0 < dbMax then some (s.boot (dbMax + 1))
    else if START_LEDGER ≠ 0 then some (s.boot START_LEDGER)
    else some { s with phase := .readLatest }
  | .readLatest => some (s.boot (s.height - 100))
  | .idle => some { s with phase := .fetch (.startLedger s.cursor) }
  | .fetch position =>
    let res := log.getEvents s.height position
    let next := if res.events.length = PAGE_LIMIT then some res.cursor else none
    some { s with phase := .page res.events res.latestLedger next }
  | .page [] _ (some pageCursor) => some { s with phase := .fetch (.cursor pageCursor) }
  | .page [] latest none => some { s with phase := .save, cursor := latest + 1 }
  | .save => some { s with phase := .idle, savedCursor := some s.cursor }
  | .page (_ :: _) _ _ | .down => none

def store (s : State) (function description : String) : Option State :=
  match s.phase with
  | .page (ev :: rest) latest next =>
    (decode (fun _ => some (function, description)) ev).map fun decoded =>
      match s.table.upsertEvent decoded with
      | some table => { s with table := table, phase := .page rest latest next }
      | none => { s with phase := .idle }
  | _ => none

/-- The loop catches every error and polls again; the start-up does not. -/
def fail (s : State) : Option State :=
  match s.phase with
  | .readMax | .readLatest => some { s with phase := .down }
  | .fetch _ | .page .. | .save => some { s with phase := .idle }
  | .idle | .down => none

def step (s : State) : Act → Option State
  | .close => some { s with height := s.height + 1 }
  | .restart => if s.phase = .down then some { s with phase := .readMax } else none
  | .crash => some { s with phase := .down }
  | .proceed => proceed log START_LEDGER s
  | .store function description => store s function description
  | .fail => fail s

def system : Transition.System State Act where
  initial s := s.phase = .down ∧ s.firstStart = none
  step := step log START_LEDGER

/-- Every event of the ledger has a row of its own. -/
def Stored (ledger : Int) (t : EventsTable) : Prop :=
  ((log.ofLedger ledger).map RpcEvent.raw).Subperm (t.events.map DecodedEvent.raw)

/-- Whatever the in-memory cursor has moved past is stored. -/
def Resumed (s : State) : Prop :=
  s.phase.Running → ∀ first, s.firstStart = some first → ∀ ledger, first ≤ ledger →
    ledger < s.cursor → Stored log ledger s.table

/-- A restart finds every event of the highest stored ledger stored; with no
event stored and no START_LEDGER, none has been missed below the new start. -/
def Resumes (s : State) (a : Act) : Prop :=
  a = .proceed → ∀ first, s.firstStart = some first →
    (s.phase = .readMax → 0 < s.table.getMaxLedger → first ≤ s.table.getMaxLedger →
      Stored log s.table.getMaxLedger s.table) ∧
    (s.phase = .readLatest → ∀ ev ∈ log.events, first ≤ ev.ledger → s.height - 100 ≤ ev.ledger)

/-- What has been passed once the page and the ones before it are stored. -/
def listed (latest : Int) : Option Nat → List RpcEvent
  | some pageCursor => log.events.take pageCursor
  | none => log.visible latest

/-- The pass that began at the cursor has stored its part of `evs`. -/
def State.Passed (s : State) (evs : List RpcEvent) : Prop :=
  ((evs.filter fun ev => s.cursor ≤ ev.ledger).map RpcEvent.raw).Subperm
    (s.table.events.map DecodedEvent.raw)

def Pass (s : State) : Prop :=
  match s.phase with
  | .fetch position => s.Passed (log.events.take (log.offset position))
  | .page rest latest next => ∃ stored, s.Passed stored ∧ stored ++ rest = listed log latest next
  | _ => True

structure Inv (s : State) : Prop where
  range : Resumed log s
  below : ∀ first, s.firstStart = some first → ∀ e ∈ s.table.events, ∀ ledger, first ≤ ledger →
    ledger < e.ledger → Stored log ledger s.table
  pass : Pass log s
  origin : ∀ first, s.firstStart = some first → START_LEDGER ≠ 0 →
    first = START_LEDGER ∨ 0 < s.table.getMaxLedger
  young : s.phase = .readLatest → s.table.getMaxLedger ≤ 0 ∧ START_LEDGER = 0

variable {log} {START_LEDGER}

theorem Stored.append {t t' : EventsTable} {es : List DecodedEvent} (stored : Stored log ledger t)
    (appended : t'.events = t.events ++ es) : Stored log ledger t' := by
  rw [Stored, appended, List.map_append]
  exact stored.trans (List.sublist_append_left _ _).subperm

theorem stored_of_none (t : EventsTable) (none : ∀ ev ∈ log.events, ev.ledger ≠ ledger) :
    Stored log ledger t := by
  have empty : log.ofLedger ledger = [] := by
    simpa only [EventLog.ofLedger, List.filter_eq_nil_iff, decide_eq_true_eq] using none
  rw [Stored, empty]
  exact List.nil_subperm

/-- A pass that has come to the ledger's end has stored all of it. -/
theorem State.Passed.stored {s : State} {evs : List RpcEvent} (passed : s.Passed evs)
    (from_cursor : s.cursor ≤ ledger)
    (whole : evs.filter (fun ev => ev.ledger = ledger) = log.ofLedger ledger) :
    Stored log ledger s.table := by
  refine List.Subperm.trans (List.Sublist.subperm ?_) passed
  apply List.Sublist.map
  have part : log.ofLedger ledger =
      (evs.filter fun ev => s.cursor ≤ ev.ledger).filter fun ev => ev.ledger = ledger := by
    rw [← whole, List.filter_filter]
    refine List.filter_congr fun ev _ => ?_
    simp only [← Bool.decide_and, decide_eq_decide]
    omega
  rw [part]
  exact List.filter_sublist

theorem State.Passed.sublist {s : State} {evs evs' : List RpcEvent} (passed : s.Passed evs)
    (fewer : evs'.Sublist evs) : s.Passed evs' :=
  (((fewer.filter _).map _).subperm).trans passed

theorem listed_prefix (latest : Int) (next : Option Nat) : listed log latest next <+: log.events := by
  cases next with
  | some pageCursor => exact List.take_prefix _ _
  | none => exact log.visible_prefix latest

/-- Before an event of the page only earlier ledgers, and part of its own, come. -/
theorem earlier_ledger {stored rest : List RpcEvent} {ev : RpcEvent}
    (split : stored ++ ev :: rest = listed log latest next) (earlier : ledger < ev.ledger) :
    stored.filter (fun other => other.ledger = ledger) = log.ofLedger ledger := by
  obtain ⟨others, whole⟩ := listed_prefix latest next
  rw [← split, List.append_assoc] at whole
  have sorted := log.sorted
  rw [← whole, List.pairwise_append] at sorted
  obtain ⟨-, tail, -⟩ := sorted
  obtain ⟨least, -⟩ := List.pairwise_cons.mp tail
  have later : ∀ other ∈ ev :: (rest ++ others), ledger < other.ledger := by
    intro other member
    rcases List.mem_cons.mp member with rfl | member
    · exact earlier
    · exact Int.lt_of_lt_of_le earlier (least other member)
  have none : (ev :: (rest ++ others)).filter (fun other => other.ledger = ledger) = [] := by
    simp only [List.filter_eq_nil_iff, decide_eq_true_eq]
    exact fun other member => Int.ne_of_gt (later other member)
  rw [EventLog.ofLedger, ← whole, List.filter_append, List.cons_append, none, List.append_nil]

/-- A page continues where the request's position stands. -/
theorem page_continues {s : State} {position : Position}
    (passed : s.Passed (log.events.take (log.offset position))) :
    ∃ stored, s.Passed stored ∧ stored ++ (log.getEvents s.height position).events =
      listed log s.height (if (log.getEvents s.height position).events.length = PAGE_LIMIT
        then some (log.getEvents s.height position).cursor else none) := by
  have seen := List.prefix_iff_eq_take.mp (log.visible_prefix s.height)
  refine ⟨(log.visible s.height).take (log.offset position), passed.sublist ?_, ?_⟩
  · rw [seen, List.take_take, Nat.min_comm, ← List.take_take]
    exact List.take_sublist _ _
  · split
    · rename_i full
      have enough : log.offset position + PAGE_LIMIT ≤ (log.visible s.height).length := by
        simp only [EventLog.getEvents, List.length_take, List.length_drop] at full
        have : 0 < PAGE_LIMIT := by decide
        omega
      have cursor : (log.getEvents s.height position).cursor = log.offset position + PAGE_LIMIT :=
        congrArg (log.offset position + ·) full
      rw [listed, cursor, EventLog.getEvents, ← List.take_add, seen, List.take_take,
        Nat.min_eq_left enough]
    · rename_i short
      rw [listed, ← log.short_page s.height position short]
      exact List.take_append_drop _ _

/-- A step that changes only the phase, and not into the start-up's last call. -/
theorem Inv.rephase {s : State} (inv : Inv log START_LEDGER s) (phase : Phase)
    (running : phase.Running → s.phase.Running) (pass : Pass log { s with phase := phase })
    (young : phase ≠ .readLatest) : Inv log START_LEDGER { s with phase := phase } where
  range runs := inv.range (running runs)
  below := inv.below
  pass := pass
  origin := inv.origin
  young := fun here => absurd here young

theorem Inv.boot {s : State} (inv : Inv log START_LEDGER s) (ledger : Int)
    (again : ∀ first, s.firstStart = some first → ∀ passed, first ≤ passed → passed < ledger →
      Stored log passed s.table)
    (origin : s.firstStart = none → START_LEDGER ≠ 0 →
      ledger = START_LEDGER ∨ 0 < s.table.getMaxLedger)
    (below : ∀ e ∈ s.table.events, ∀ passed, ledger ≤ passed → passed < e.ledger →
      Stored log passed s.table) : Inv log START_LEDGER (s.boot ledger) := by
  have started : ∀ first, (s.boot ledger).firstStart = some first →
      s.firstStart = some first ∨ (s.firstStart = none ∧ first = ledger) := by
    intro first start
    cases before : s.firstStart <;> simp_all [State.boot]
  refine ⟨?_, ?_, trivial, ?_, fun here => nomatch here⟩
  · rintro - first start passed from_first (past : passed < ledger)
    rcases started first start with known | ⟨-, rfl⟩
    · exact again first known passed from_first past
    · omega
  · intro first start e member passed from_first past
    rcases started first start with known | ⟨-, rfl⟩
    · exact inv.below first known e member passed from_first past
    · exact below e member passed from_first past
  · intro first start configured
    rcases started first start with known | ⟨unknown, rfl⟩
    · exact inv.origin first known configured
    · exact origin unknown configured

/-- Rows of ledgers that no event has. -/
theorem below_of_max_nonpos {t : EventsTable} (low : t.getMaxLedger ≤ 0) :
    ∀ e ∈ t.events, ∀ ledger, ledger < e.ledger → Stored log ledger t := by
  intro e member ledger past
  have bound := t.ledger_le_max e member
  exact stored_of_none t fun ev logged => by
    have := log.positive ev logged
    omega

theorem proceed_preserves {s t : State} (inv : Inv log START_LEDGER s)
    (resumes : Resumes log s .proceed) (stepped : proceed log START_LEDGER s = some t) :
    Inv log START_LEDGER t := by
  have resumes := resumes rfl
  unfold proceed at stepped
  split at stepped
  · rename_i phase
    dsimp only at stepped
    split at stepped
    · rename_i positive
      cases stepped
      refine inv.boot _ ?_ (fun _ _ => .inr positive) ?_
      · intro first start ledger from_first past
        rcases Int.lt_or_eq_of_le (Int.lt_add_one_iff.mp past) with lower | rfl
        · obtain ⟨e, member, highest⟩ := s.table.max_stored positive
          exact inv.below first start e member ledger from_first (highest ▸ lower)
        · exact (resumes first start).1 phase positive from_first
      · intro e member ledger from_first past
        have := s.table.ledger_le_max e member
        omega
    · rename_i low
      have low := not_lt.mp low
      split at stepped
      · cases stepped
        rename_i configured
        refine inv.boot _ ?_ (fun _ _ => .inl rfl)
          fun e member ledger _ => below_of_max_nonpos low e member ledger
        intro first start ledger from_first past
        rcases inv.origin first start configured with rfl | positive
        · omega
        · omega
      · cases stepped
        rename_i unset
        refine ⟨False.elim, inv.below, trivial, inv.origin, fun _ => ?_⟩
        exact ⟨low, not_not.mp unset⟩
  · rename_i phase
    cases stepped
    obtain ⟨low, unset⟩ := inv.young phase
    refine inv.boot _ ?_ (fun _ configured => absurd unset configured)
      fun e member ledger _ => below_of_max_nonpos low e member ledger
    intro first start ledger from_first past
    refine stored_of_none _ fun ev logged same => ?_
    have := (resumes first start).2 phase ev logged (same ▸ from_first)
    omega
  · rename_i phase
    cases stepped
    refine inv.rephase _ (fun _ => by rw [phase]; trivial) ?_ (fun here => by contradiction)
    have none : (log.events.take (log.offset (.startLedger s.cursor))).filter
        (fun ev => s.cursor ≤ ev.ledger) = [] := by
      rw [EventLog.offset, take_below log.sorted, List.filter_filter]
      simp only [List.filter_eq_nil_iff, Bool.and_eq_true, decide_eq_true_eq]
      omega
    change List.Subperm _ _
    rw [none]
    exact List.nil_subperm
  · rename_i position phase
    cases stepped
    have pass := inv.pass
    simp only [Pass, phase] at pass
    exact inv.rephase _ (fun _ => by rw [phase]; trivial) (page_continues pass)
      fun here => by contradiction
  · rename_i latest pageCursor phase
    cases stepped
    have pass := inv.pass
    simp only [Pass, phase] at pass
    obtain ⟨stored, passed, whole⟩ := pass
    rw [List.append_nil] at whole
    refine inv.rephase _ (fun _ => by rw [phase]; trivial) ?_ fun here => by contradiction
    rw [whole] at passed
    exact passed
  · rename_i latest phase
    cases stepped
    have pass := inv.pass
    simp only [Pass, phase] at pass
    obtain ⟨stored, passed, whole⟩ := pass
    rw [List.append_nil, listed] at whole
    subst whole
    refine ⟨?_, inv.below, trivial, inv.origin, fun here => by contradiction⟩
    rintro - first start ledger from_first (past : ledger < latest + 1)
    by_cases before : ledger < s.cursor
    · exact inv.range (by rw [phase]; trivial) first start ledger from_first before
    · apply passed.stored (not_lt.mp before)
      rw [EventLog.visible, List.filter_filter, EventLog.ofLedger]
      refine List.filter_congr fun ev _ => ?_
      simp only [← Bool.decide_and, decide_eq_decide]
      omega
  · rename_i phase
    cases stepped
    refine ⟨?_, inv.below, trivial, inv.origin, fun here => by contradiction⟩
    exact fun _ => inv.range (by rw [phase]; trivial)
  · contradiction
  · contradiction

/-- The inserted event is the first of its page, so earlier ledgers are complete. -/
theorem store_preserves {s t : State} {function description : String}
    (inv : Inv log START_LEDGER s) (stepped : store s function description = some t) :
    Inv log START_LEDGER t := by
  unfold store at stepped
  split at stepped
  · rename_i ev rest latest next phase
    have running : s.phase.Running := by rw [phase]; trivial
    obtain ⟨e, decoded, inserted⟩ := Option.map_eq_some_iff.mp stepped
    split at inserted
    · rename_i table accepted
      cases inserted
      have events := EventsTable.upsertEvent_events accepted
      have pass := inv.pass
      simp only [Pass, phase] at pass
      obtain ⟨stored, passed, whole⟩ := pass
      refine ⟨?_, ?_, ?_, ?_, fun here => nomatch here⟩
      · intro _ first start ledger from_first past
        exact (inv.range running first start ledger from_first past).append events
      · intro first start other member ledger from_first past
        rw [events, List.mem_append, List.mem_singleton] at member
        refine Stored.append ?_ events
        rcases member with member | rfl
        · exact inv.below first start other member ledger from_first past
        · have same : other.ledger = ev.ledger := congrArg RawColumns.ledger (decode_raw decoded)
          by_cases before : ledger < s.cursor
          · exact inv.range running first start ledger from_first before
          · exact passed.stored (not_lt.mp before) (earlier_ledger whole (same ▸ past))
      · refine ⟨stored ++ [ev], ?_, by simpa using whole⟩
        simp only [State.Passed, events, List.filter_append, List.map_append, List.map_cons,
          List.map_nil, decode_raw decoded]
        exact List.Subperm.append passed (List.filter_sublist.map RpcEvent.raw).subperm
      · intro first start configured
        refine (inv.origin first start configured).imp_right fun positive => ?_
        obtain ⟨other, member, highest⟩ := s.table.max_stored positive
        have bound := table.ledger_le_max other (by rw [events]; exact List.mem_append_left _ member)
        exact Int.lt_of_lt_of_le positive (highest ▸ bound)
    · cases inserted
      exact inv.rephase _ (fun _ => running) trivial fun here => nomatch here
  · contradiction

theorem resumes_preserved {s t : State} {a : Act} (inv : Inv log START_LEDGER s)
    (resumes : Resumes log s a) (stepped : (system log START_LEDGER).step s a = some t) :
    Inv log START_LEDGER t := by
  cases a with
  | close =>
    cases stepped
    exact ⟨inv.range, inv.below, inv.pass, inv.origin, inv.young⟩
  | restart =>
    simp only [system, step] at stepped
    split at stepped
    · cases stepped
      exact inv.rephase _ (fun runs => nomatch runs) trivial fun here => nomatch here
    · contradiction
  | crash =>
    cases stepped
    exact inv.rephase _ (fun runs => nomatch runs) trivial fun here => nomatch here
  | proceed => exact proceed_preserves inv resumes stepped
  | store function description => exact store_preserves inv stepped
  | fail =>
    simp only [system, step, fail] at stepped
    split at stepped <;> cases stepped <;> rename_i phase <;>
      exact inv.rephase _ (fun runs => by rw [phase]; exact runs) trivial fun here => nomatch here

/-- A restart that loses nothing has met the condition. -/
theorem resumes_necessary {s t : State} {a : Act} (inv : Inv log START_LEDGER s)
    (stepped : (system log START_LEDGER).step s a = some t) (resumed : Resumed log t) :
    Resumes log s a := by
  rintro rfl first start
  have known (ledger : Int) : (s.boot ledger).firstStart = some first := by simp [State.boot, start]
  constructor
  · intro phase positive from_first
    simp only [system, step, proceed, phase, positive, if_true] at stepped
    cases stepped
    exact resumed trivial first (known _) _ from_first (Int.lt_succ _)
  · intro phase ev logged from_first
    simp only [system, step, proceed, phase] at stepped
    cases stepped
    by_contra missed
    have stored := resumed trivial first (known _) ev.ledger from_first (not_le.mp missed)
    have listed : ev.raw ∈ (log.ofLedger ev.ledger).map RpcEvent.raw :=
      List.mem_map_of_mem (List.mem_filter.mpr ⟨logged, by simp⟩)
    obtain ⟨e, member, same⟩ := List.mem_map.mp (stored.subset listed)
    have bound := s.table.ledger_le_max e member
    have ledger : e.ledger = ev.ledger := congrArg RawColumns.ledger same
    have := log.positive ev logged
    have := (inv.young phase).1
    omega

/-- A schedule of failures, crashes and restarts loses nothing the cursor has
moved past exactly when every restart meets the condition. -/
theorem resumes_without_loss_iff (log : EventLog) (START_LEDGER : Nat) (s : State) (acts : List Act)
    (start : (system log START_LEDGER).initial s) :
    (system log START_LEDGER).Along (Resumed log) s acts ↔
      (system log START_LEDGER).Guarded (Resumes log) s acts := by
  refine Transition.System.along_iff_guarded (fun inv => inv.range) resumes_preserved
    resumes_necessary ?_ acts
  obtain ⟨down, fresh⟩ := start
  refine ⟨?_, ?_, ?_, ?_, ?_⟩
  · intro running
    rw [down] at running
    contradiction
  · intro first start
    rw [fresh] at start
    contradiction
  · simp only [Pass, down]
  · intro first start
    rw [fresh] at start
    contradiction
  · intro here
    rw [down] at here
    contradiction

/-- Two transfers in ledger 7. -/
def twoTransfers : EventLog :=
  ⟨[⟨"CDLZ", 7, "ab12", ["transfer"], "100"⟩, ⟨"CDLZ", 7, "cd34", ["transfer"], "200"⟩],
    by simp, by simp⟩

def stopped : State := ⟨.down, 0, .empty, none, 7, none⟩

/-- A start, the request, and one of the two inserts. -/
def firstInsert : List Act := [.restart, .proceed, .proceed, .proceed, .store "transfer" "CDLZ transfer"]

theorem first_pass_resumes :
    (system twoTransfers 7).Along (Resumed twoTransfers) stopped firstInsert := by
  refine (resumes_without_loss_iff twoTransfers 7 stopped firstInsert ⟨rfl, rfl⟩).mpr ?_
  simp only [firstInsert, Transition.System.Guarded]
  rintro _ ⟨⟩
  refine ⟨by simp [Resumes], ?_⟩
  rintro _ ⟨⟩
  refine ⟨by simp [Resumes, stopped], ?_⟩
  rintro _ ⟨⟩
  refine ⟨by simp [Resumes, State.boot], ?_⟩
  rintro _ ⟨⟩
  refine ⟨by simp [Resumes, State.boot], ?_⟩
  rintro _ ⟨⟩
  exact ⟨by simp [Resumes], trivial⟩

/-- The process crashes between the two inserts and starts again behind them. -/
theorem resumes_with_loss : ¬ ∀ (log : EventLog) (START_LEDGER : Nat) (s : State),
    (system log START_LEDGER).Reachable s → Resumed log s := by
  intro claim
  have reached := Transition.System.reachable_of_run (system twoTransfers 7) stopped
    (firstInsert ++ [.crash, .restart, .proceed]) ⟨rfl, rfl⟩ rfl
  have stored := claim twoTransfers 7 _ reached trivial 7 rfl 7 (by decide) (by decide)
  exact absurd stored.length_le (by decide)

end Octraban.Resume
