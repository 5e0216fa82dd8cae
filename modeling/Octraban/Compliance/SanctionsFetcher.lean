import Octraban.Compliance.ScreeningEngine
import Octraban.Core.Transition
import Mathlib.Algebra.BigOperators.Group.Finset.Piecewise

/-! sanctions-fetcher.ts: a fetched list is written in batches, after the rows that the same
source has from the same day are deactivated. -/
namespace Octraban.Compliance
open JavaScript Transition System

instance : Fintype SanctionsSource where
  elems := {.ofac_sdn, .ofac_cap, .eu, .un, .uk_ofsi, .custom}
  complete source := by cases source <;> decide

def SanctionsSource.text : SanctionsSource → String
  | ofac_sdn => "ofac_sdn"
  | ofac_cap => "ofac_cap"
  | eu => "eu"
  | un => "un"
  | uk_ofsi => "uk_ofsi"
  | custom => "custom"

def getSourceUrl : SanctionsSource → String
  | .ofac_sdn => "https://www.treasury.gov/ofac/downloads/sdn.xml"
  | .ofac_cap => "https://www.treasury.gov/ofac/downloads/consolidated/consolidated.xml"
  | .eu => "https://webgate.ec.europa.eu/fsd/fsf/public/files/xmlFullSanctionsList_1/content"
  | .un => "https://scsanctions.un.org/resources/xml/en/consolidated.xml"
  | .uk_ofsi => "https://ofsistorage.blob.core.windows.net/publishlive/2022format/ConList.xml"
  | .custom => ""

/-- A write may be made and its reply lost. A process that stops before a write, or before
its reply, is one whose write is refused, or lost. -/
inductive Answer where
  | done
  | refused (msg : String)
  | lost (msg : String)

def Answer.error? : Answer → Option String
  | done => none
  | refused msg | lost msg => some msg

/-- One call of `fetchSanctionsList`, on `day`, with what its awaits bring: the entries that
are read from the response, and an answer for each access to the table. -/
structure Run where
  source : SanctionsSource
  day : String
  response : Except String (List FetchedEntry)
  count : Answer
  updateMany : Answer
  createMany : List Answer

structure FetchResult where
  source : SanctionsSource
  entriesFound : Nat
  entriesImported : Nat
  listVersion : String
  errors : List String

/-- `latest` has, for every source, the entries of the latest run whose import completed. -/
structure State where
  sanctionsList : List SanctionsList
  nextId : Nat
  latest : SanctionsSource → List FetchedEntry

/-- The columns that the parsers fill in themselves. -/
def parsed (source : SanctionsSource) (entry : FetchedEntry) : FetchedEntry :=
  { entry with
    source := source
    sourceUrl := some (getSourceUrl source)
    listName := some s!"{source.text} sanctions list" }

def createMany (s : State) (batch : List FetchedEntry) : State :=
  { s with
    nextId := s.nextId + batch.length
    sanctionsList := s.sanctionsList ++ (batch.zipIdx s.nextId).map fun (entry, id) => ⟨entry, id, true⟩ }

/-- `updateMany({ where: { source, listVersion }, data: { isActive: false } })` -/
def deactivate (s : State) (source : SanctionsSource) (listVersion : String) : State :=
  { s with
    sanctionsList := s.sanctionsList.map fun row =>
      if row.source = source ∧ row.listVersion = listVersion then { row with isActive := false } else row }

def existingCount (s : State) (source : SanctionsSource) (listVersion : String) : Nat :=
  s.sanctionsList.countP fun row => row.source = source ∧ row.listVersion = listVersion

/-- Every row of the same day is deactivated, when there is one, and the error that ends the run. -/
def updateExisting (s : State) (run : Run) : State × Option String :=
  if existingCount s run.source run.day > 0 then
    match run.updateMany with
    | .done => (deactivate s run.source run.day, none)
    | .refused msg => (s, some msg)
    | .lost msg => (deactivate s run.source run.day, some msg)
  else (s, none)

/-- `for (let i = 0; i < entries.length; i += batchSize)` -/
def batches (entries : List FetchedEntry) : List (List FetchedEntry) :=
  (List.range ((entries.length + 99) / 100)).map fun k => (entries.drop (100 * k)).take 100

/-- The loop over the batches, with the error that ends it. -/
def importBatches (s : State) : List (List FetchedEntry) → List Answer → State × Option String
  | [], _ => (s, none)
  | batch :: rest, .done :: answers => importBatches (createMany s batch) rest answers
  | batch :: _, .lost msg :: _ => (createMany s batch, some msg)
  | _, .refused msg :: _ => (s, some msg)
  | _, [] => (s, some "")

def fetchSanctionsList (s : State) (run : Run) : State × FetchResult :=
  let result : FetchResult := ⟨run.source, 0, 0, run.day, []⟩
  if getSourceUrl run.source = "" then
    (s, { result with errors := [s!"No URL configured for source: {run.source.text}"] })
  else
    match run.response with
    | .error msg => (s, { result with errors := [msg] })
    | .ok [] => (s, { result with errors := [s!"No entries parsed from {run.source.text} response"] })
    | .ok (first :: more) =>
      let entries := (first :: more).map (parsed run.source)
      let result := { result with entriesFound := entries.length }
      match run.count.error? with
      | some msg => (s, { result with errors := [msg] })
      | none =>
        match updateExisting s run with
        | (t, some msg) => (t, { result with errors := [msg] })
        | (t, none) =>
          match importBatches t (batches entries) run.createMany with
          | (t, some msg) => (t, { result with errors := [msg] })
          | (t, none) =>
            ({ t with latest := Function.update t.latest run.source entries },
              { result with entriesImported := entries.length })

def fetcher : System State Run where
  initial s := s.sanctionsList = [] ∧ s.latest = fun _ => []
  step s run := some (fetchSanctionsList s run).1

/-- The active entries of a source. -/
def State.active (s : State) (source : SanctionsSource) : List FetchedEntry :=
  (s.sanctionsList.filter fun row => row.isActive && row.source = source).map SanctionsList.toFetchedEntry

/-- The active list of every source is its latest one. -/
def Latest (s : State) : Prop := ∀ source, (s.active source).Perm (s.latest source)

/-- The entries that a run comes to write. -/
def Run.entries (run : Run) : Option (List FetchedEntry) :=
  if getSourceUrl run.source = "" then none
  else
    match run.response with
    | .error _ | .ok [] => none
    | .ok entries => if run.count.error? = none then some (entries.map (parsed run.source)) else none

/-- What the answers let through of the batches, and whether it is everything. -/
def written : List (List FetchedEntry) → List Answer → List FetchedEntry × Bool
  | [], _ => ([], true)
  | batch :: rest, .done :: answers => (batch ++ (written rest answers).1, (written rest answers).2)
  | batch :: _, .lost _ :: _ => (batch, false)
  | _ :: _, .refused _ :: _ | _ :: _, [] => ([], false)

/-- How far a run gets with the table. -/
inductive Progress where
  | untouched
  | stopped (written : List FetchedEntry)
  | completed (entries : List FetchedEntry)

def progress (s : State) (run : Run) : Progress :=
  match run.entries with
  | none => .untouched
  | some entries =>
    let writing : Progress := if (written (batches entries) run.createMany).2 then .completed entries
      else .stopped (written (batches entries) run.createMany).1
    if existingCount s run.source run.day > 0 then
      match run.updateMany with
      | .done => writing
      | .refused _ => .untouched
      | .lost _ => .stopped []
    else writing

/-- The list of every other day is gone when a run completes its import, and a run that stops
on the way has written what it had deactivated. -/
def Replaces (s : State) (run : Run) : Prop :=
  match progress s run with
  | .untouched => True
  | .stopped written => written.Perm ((s.active run.source).filter fun entry => entry.listVersion = run.day)
  | .completed _ => ∀ entry ∈ s.active run.source, entry.listVersion = run.day

variable {s t : State} {run : Run} {source : SanctionsSource}

theorem flatten_batches (entries : List FetchedEntry) : (batches entries).flatten = entries := by
  have prefixes (n : Nat) : ((List.range n).map fun k => (entries.drop (100 * k)).take 100).flatten =
      entries.take (100 * n) := by
    induction n with
    | zero => rfl
    | succ n ih =>
      rw [List.range_succ, List.map_append, List.flatten_append, ih, List.map_singleton, List.flatten_singleton,
        Nat.mul_succ, List.take_add]
  unfold batches
  rw [prefixes, List.take_of_length_le (by omega)]

theorem written_completed (all : (written parts answers).2 = true) : (written parts answers).1 = parts.flatten := by
  induction parts generalizing answers with
  | nil => rfl
  | cons batch rest ih =>
    cases answers with
    | nil => cases all
    | cons answer answers =>
      cases answer with
      | done => rw [List.flatten_cons, ← ih all, written]
      | refused msg | lost msg => cases all

/-! ### What the accesses do to the active entries -/

theorem active_createMany (s : State) (batch : List FetchedEntry)
    (of_source : ∀ entry ∈ batch, entry.source = run.source) :
    (createMany s batch).active source = s.active source ++ if source = run.source then batch else [] := by
  have fresh (n : Nat) : (((batch.zipIdx n).map fun (entry, id) => (⟨entry, id, true⟩ : SanctionsList)).filter
      fun row => row.isActive && row.source = source).map SanctionsList.toFetchedEntry =
      if source = run.source then batch else [] := by
    induction batch generalizing n with
    | nil => simp
    | cons entry rest ih =>
      obtain ⟨first, others⟩ := List.forall_mem_cons.mp of_source
      have later := ih others (n + 1)
      by_cases same : source = run.source
      · rw [if_pos same] at later ⊢
        simp only [List.zipIdx_cons, List.map_cons, List.filter_cons, first, same, decide_true, Bool.and_self, if_true]
        rw [same] at later
        rw [later]
      · rw [if_neg same] at later ⊢
        simp only [List.zipIdx_cons, List.map_cons, List.filter_cons, first, decide_eq_false (Ne.symm same),
          Bool.and_false, Bool.false_eq_true, if_false]
        exact later
  simp only [State.active, createMany, List.filter_append, List.map_append]
  rw [fresh]

theorem active_deactivate (s : State) (listVersion : String) :
    (deactivate s run.source listVersion).active source = if source = run.source
      then (s.active source).filter fun entry => entry.listVersion ≠ listVersion else s.active source := by
  unfold State.active deactivate
  set change : SanctionsList → SanctionsList := fun row =>
    if row.source = run.source ∧ row.listVersion = listVersion then { row with isActive := false } else row with named
  have entry (row : SanctionsList) : (change row).toFetchedEntry = row.toFetchedEntry := by
    simp only [named]
    split <;> rfl
  have kept (row : SanctionsList) : (change row).isActive =
      (row.isActive && !(row.source = run.source && row.listVersion = listVersion)) := by
    simp only [named]
    split
    · rename_i same
      simp [same]
    · rename_i other
      have unchanged : (decide (row.source = run.source) && decide (row.listVersion = listVersion)) = false := by
        simpa using other
      rw [unchanged, Bool.not_false, Bool.and_true]
  simp only [List.filter_map, List.map_map]
  have entries : SanctionsList.toFetchedEntry ∘ change = SanctionsList.toFetchedEntry := funext entry
  rw [entries]
  split
  · rename_i same
    subst same
    rw [List.filter_filter]
    congr 1
    refine List.filter_congr fun row _ => ?_
    simp only [Function.comp_apply, kept, entry]
    by_cases of_source : row.source = run.source
    · simp [of_source, Bool.and_comm]
    · simp [of_source]
  · rename_i other
    congr 1
    refine List.filter_congr fun row _ => ?_
    simp only [Function.comp_apply, kept, entry]
    by_cases of_source : row.source = source
    · simp [of_source, other]
    · simp [of_source]

/-- A run has rewritten the active list of its source: of another day is what it was, of
this day what was written. -/
def Rewritten (s : State) (run : Run) (t : State) (entries : List FetchedEntry) : Prop :=
  ∀ source, t.active source = if source = run.source
    then (s.active source).filter (fun entry => entry.listVersion ≠ run.day) ++ entries else s.active source

theorem Rewritten.createMany (rewritten : Rewritten s run t entries)
    (of_source : ∀ entry ∈ batch, entry.source = run.source) :
    Rewritten s run (createMany t batch) (entries ++ batch) := by
  intro source
  rw [active_createMany t batch of_source, rewritten source]
  split
  · rw [List.append_assoc]
  · rw [List.append_nil]

theorem rewritten_deactivate (s : State) (run : Run) : Rewritten s run (deactivate s run.source run.day) [] := by
  intro source
  rw [active_deactivate, List.append_nil]

theorem rewritten_self (none_exists : ¬ existingCount s run.source run.day > 0) : Rewritten s run s [] := by
  intro source
  have absent : ∀ row ∈ s.sanctionsList, ¬ (row.source = run.source ∧ row.listVersion = run.day) := by
    have zero : existingCount s run.source run.day = 0 := by omega
    simpa [existingCount, List.countP_eq_zero] using zero
  split
  · rename_i same
    rw [List.append_nil, eq_comm, List.filter_eq_self]
    intro entry member
    obtain ⟨row, listed, rfl⟩ := List.mem_map.mp member
    obtain ⟨present, active⟩ := List.mem_filter.mp listed
    have of_source : row.source = run.source := by
      rw [← same]
      simpa using (Bool.and_eq_true_iff.mp active).2
    simpa using fun version => absent row present ⟨of_source, version⟩
  · rfl

theorem importBatches_rewritten (answers : List Answer) (rewritten : Rewritten s run t before)
    (of_source : ∀ entry ∈ parts.flatten, entry.source = run.source) :
    Rewritten s run (importBatches t parts answers).1 (before ++ (written parts answers).1) ∧
    (importBatches t parts answers).1.latest = t.latest ∧
    ((importBatches t parts answers).2 = none ↔ (written parts answers).2 = true) := by
  induction parts generalizing t before answers with
  | nil =>
    refine ⟨?_, rfl, iff_of_true rfl rfl⟩
    rwa [written, List.append_nil]
  | cons batch rest ih =>
    rw [List.flatten_cons, List.forall_mem_append] at of_source
    obtain ⟨first, later⟩ := of_source
    have stays : Rewritten s run t (before ++ []) := by rwa [List.append_nil]
    cases answers with
    | nil => exact ⟨stays, rfl, by simp [importBatches, written]⟩
    | cons answer answers =>
      cases answer with
      | done =>
        obtain ⟨all, kept, finished⟩ := ih answers (rewritten.createMany first) later
        refine ⟨?_, kept, finished⟩
        rw [List.append_assoc] at all
        exact all
      | refused msg => exact ⟨stays, rfl, by simp [importBatches, written]⟩
      | lost msg => exact ⟨rewritten.createMany first, rfl, by simp [importBatches, written]⟩

/-- Everything a run can do to the table. -/
inductive Fetched (s : State) (run : Run) (t : State) : Progress → Prop where
  | untouched : t = s → Fetched s run t .untouched
  | stopped : Rewritten s run t entries → t.latest = s.latest → Fetched s run t (.stopped entries)
  | completed : Rewritten s run t entries → t.latest = Function.update s.latest run.source entries →
      Fetched s run t (.completed entries)

theorem fetched_import (rewritten : Rewritten s run t []) (same : t.latest = s.latest)
    (of_source : ∀ entry ∈ entries, entry.source = run.source) (failed : String → FetchResult)
    (imported : FetchResult) :
    Fetched s run
      (match importBatches t (batches entries) run.createMany with
      | (u, some msg) => (u, failed msg)
      | (u, none) => ({ u with latest := Function.update u.latest run.source entries }, imported)).1
      (if (written (batches entries) run.createMany).2 then .completed entries
        else .stopped (written (batches entries) run.createMany).1) := by
  rw [← flatten_batches entries] at of_source
  obtain ⟨all, kept, finished⟩ := importBatches_rewritten run.createMany rewritten of_source
  rw [List.nil_append] at all
  cases outcome : importBatches t (batches entries) run.createMany with
  | mk u err =>
    rw [outcome] at all kept finished
    cases err with
    | some msg =>
      have unfinished : (written (batches entries) run.createMany).2 = false := by simpa using finished
      rw [unfinished]
      exact .stopped all (kept.trans same)
    | none =>
      have complete := finished.mp rfl
      rw [written_completed complete, flatten_batches] at all
      rw [complete]
      exact .completed all (congrArg (Function.update · run.source entries) (kept.trans same))

theorem fetched (s : State) (run : Run) : Fetched s run (fetchSanctionsList s run).1 (progress s run) := by
  unfold fetchSanctionsList progress Run.entries
  by_cases noUrl : getSourceUrl run.source = ""
  · simp only [if_pos noUrl]
    exact .untouched rfl
  simp only [if_neg noUrl]
  match run.response with
  | .error msg => exact .untouched rfl
  | .ok [] => exact .untouched rfl
  | .ok (first :: more) =>
    simp only
    set entries := (first :: more).map (parsed run.source)
    have of_source : ∀ entry ∈ entries, entry.source = run.source := by
      intro entry member
      obtain ⟨_, _, rfl⟩ := List.mem_map.mp member
      rfl
    cases run.count.error? with
    | some msg => exact .untouched rfl
    | none =>
      simp only [if_true, updateExisting]
      by_cases known : existingCount s run.source run.day > 0
      · simp only [if_pos known]
        cases run.updateMany with
        | done => exact fetched_import (rewritten_deactivate s run) rfl of_source _ _
        | refused msg => exact .untouched rfl
        | lost msg => exact .stopped (rewritten_deactivate s run) rfl
      · simp only [if_neg known]
        exact fetched_import (rewritten_self known) rfl of_source _ _

theorem perm_other_days (s : State) (run : Run) :
    ((s.active run.source).filter (fun entry => entry.listVersion ≠ run.day) ++
      (s.active run.source).filter fun entry => entry.listVersion = run.day).Perm (s.active run.source) := by
  have parts := List.filter_append_perm (fun entry : FetchedEntry => decide (entry.listVersion ≠ run.day))
    (s.active run.source)
  simpa using parts

theorem no_other_day_iff (s : State) (run : Run) :
    (s.active run.source).filter (fun entry => entry.listVersion ≠ run.day) = [] ↔
      ∀ entry ∈ s.active run.source, entry.listVersion = run.day := by
  simp [List.filter_eq_nil_iff]

theorem latest_stopped_iff (latest : Latest s) (rewritten : Rewritten s run t entries) (same : t.latest = s.latest) :
    Latest t ↔ entries.Perm ((s.active run.source).filter fun entry => entry.listVersion = run.day) := by
  have whole := perm_other_days s run
  constructor
  · intro after
    have own := after run.source
    rw [rewritten, if_pos rfl, same] at own
    exact (List.perm_append_left_iff _).mp ((own.trans (latest run.source).symm).trans whole.symm)
  · intro replaced source
    rw [rewritten, same]
    split
    · rename_i own
      subst own
      exact ((replaced.append_left _).trans whole).trans (latest run.source)
    · exact latest source

theorem latest_completed_iff (latest : Latest s) (rewritten : Rewritten s run t entries)
    (same : t.latest = Function.update s.latest run.source entries) :
    Latest t ↔ ∀ entry ∈ s.active run.source, entry.listVersion = run.day := by
  rw [← no_other_day_iff]
  constructor
  · intro after
    have own := after run.source
    rw [rewritten, if_pos rfl, same, Function.update_self] at own
    have lengths := own.length_eq
    rw [List.length_append] at lengths
    exact List.length_eq_zero_iff.mp (by omega)
  · intro none_other source
    rw [rewritten, same]
    split
    · rename_i own
      subst own
      rw [none_other, List.nil_append, Function.update_self]
    · rename_i other
      rw [Function.update_of_ne other]
      exact latest source

/-- The condition is exact, for one run. -/
theorem latest_iff_replaces (latest : Latest s) : Latest (fetchSanctionsList s run).1 ↔ Replaces s run := by
  have done := fetched s run
  unfold Replaces
  cases reached : progress s run with
  | untouched =>
    rw [reached] at done
    cases done with
    | untouched same =>
      rw [same]
      exact iff_of_true latest trivial
  | stopped entries =>
    rw [reached] at done
    cases done with
    | stopped rewritten same => exact latest_stopped_iff latest rewritten same
  | completed entries =>
    rw [reached] at done
    cases done with
    | completed rewritten same => exact latest_completed_iff latest rewritten same

/-! ### What screening reads of the list -/

/-- Every address that an active entry carries is blocked. -/
def Blocking (platform : Platform) (s : State) : Prop :=
  ∀ source, ∀ entry ∈ s.active source, ∀ address, entry.address = some address → address ≠ "" →
    ∀ options startTime now id, ∃ screened,
      (screenAddress platform address options startTime now (some (activeLists s.sanctionsList)) (some id)).1 =
        some screened ∧ screened.status = .blocked

def LongAddress (entry : FetchedEntry) : Prop :=
  ∀ address, entry.address = some address → address ≠ "" → 10 ≤ length address

/-- No more active entries than screening reads, and no address that it takes for none. -/
structure Screenable (s : State) : Prop where
  few : ∑ source, (s.active source).length ≤ 10000
  long : ∀ source, ∀ entry ∈ s.active source, LongAddress entry

/-- The entries of a run leave room for those of the other sources. -/
def Fits (s : State) (run : Run) : Prop :=
  ∀ entries, run.entries = some entries → (∀ entry ∈ entries, LongAddress entry) ∧
    ∑ other ∈ Finset.univ.erase run.source, (s.active other).length + entries.length ≤ 10000

/-- The active rows are those of the sources together. -/
theorem length_active (s : State) :
    (s.sanctionsList.filter SanctionsList.isActive).length = ∑ source, (s.active source).length := by
  unfold State.active
  induction s.sanctionsList with
  | nil => simp
  | cons row rest ih =>
    cases active : row.isActive with
    | false => simpa [active] using ih
    | true =>
      have one (source : SanctionsSource) : (((row :: rest).filter fun row => row.isActive && row.source = source).map
          SanctionsList.toFetchedEntry).length = (if row.source = source then 1 else 0) +
          ((rest.filter fun row => row.isActive && row.source = source).map SanctionsList.toFetchedEntry).length := by
        by_cases same : row.source = source
        · simp [active, same, Nat.add_comm]
        · simp [active, same]
      rw [List.filter_cons_of_pos active, List.length_cons, ih, Finset.sum_congr rfl fun source _ => one source,
        Finset.sum_add_distrib, Finset.sum_ite_eq, if_pos (Finset.mem_univ _), Nat.add_comm]

theorem Screenable.blocking (screenable : Screenable s) (platform : Platform) : Blocking platform s := by
  obtain ⟨few, long⟩ := screenable
  intro source entry member address carries nonempty options startTime now id
  obtain ⟨row, listed, rfl⟩ := List.mem_map.mp member
  obtain ⟨present, active⟩ := List.mem_filter.mp listed
  have read : row ∈ activeLists s.sanctionsList := by
    rw [activeLists, List.take_of_length_le (by rw [length_active]; exact few)]
    exact List.mem_filter.mpr ⟨present, (Bool.and_eq_true_iff.mp active).1⟩
  exact screenAddress_listed (long source _ member address carries nonempty) read carries

theorem Screenable.of_perm (screenable : Screenable s) (same : ∀ source, (t.active source).Perm (s.active source)) :
    Screenable t := by
  obtain ⟨few, long⟩ := screenable
  constructor
  · rwa [Finset.sum_congr rfl fun source _ => (same source).length_eq]
  · intro source entry member
    exact long source entry ((same source).mem_iff.mp member)

theorem entries_of_completed (reached : progress s run = .completed entries) : run.entries = some entries := by
  unfold progress at reached
  cases found : run.entries with
  | none => simp [found] at reached
  | some all =>
    have writing : (if (written (batches all) run.createMany).2 then Progress.completed all
        else .stopped (written (batches all) run.createMany).1) = .completed entries → all = entries := by
      intro same
      split at same
      · cases same
        rfl
      · cases same
    simp only [found] at reached
    split at reached
    · cases answered : run.updateMany with
      | done =>
        rw [answered] at reached
        rw [writing reached]
      | refused msg | lost msg =>
        rw [answered] at reached
        cases reached
    · rw [writing reached]

theorem Screenable.fetch (screenable : Screenable s) (latest : Latest s) (replaces : Replaces s run)
    (fits : Fits s run) :
    Screenable (fetchSanctionsList s run).1 := by
  have after := (latest_iff_replaces latest).mpr replaces
  have done := fetched s run
  cases reached : progress s run with
  | untouched =>
    rw [reached] at done
    cases done with
    | untouched same =>
      rw [same]
      exact screenable
  | stopped entries =>
    rw [reached] at done
    cases done with
    | stopped _ same =>
      refine screenable.of_perm fun source => (after source).trans ?_
      rw [same]
      exact (latest source).symm
  | completed entries =>
    rw [reached] at done
    cases done with
    | completed _ same =>
      obtain ⟨long, room⟩ := fits entries (entries_of_completed reached)
      have own := after run.source
      rw [same, Function.update_self] at own
      have others : ∀ source, source ≠ run.source →
          ((fetchSanctionsList s run).1.active source).Perm (s.active source) := by
        intro source other
        have perm := after source
        rw [same, Function.update_of_ne other] at perm
        exact perm.trans (latest source).symm
      constructor
      · rw [← Finset.add_sum_erase _ _ (Finset.mem_univ run.source), own.length_eq, Nat.add_comm,
          Finset.sum_congr rfl fun source member => (others source (Finset.ne_of_mem_erase member)).length_eq]
        exact room
      · intro source entry member
        by_cases of_source : source = run.source
        · subst of_source
          exact long entry (own.mem_iff.mp member)
        · exact screenable.long source entry ((others source of_source).mem_iff.mp member)

/-- When the active list is the latest one all along a sequence of runs, and when screening
blocks all of it. -/
theorem active_list_latest_iff (platform : Platform) (s : State) (runs : List Run) (start : Latest s)
    (screenable : Screenable s) :
    (fetcher.Along Latest s runs ↔ fetcher.Guarded Replaces s runs) ∧
    (fetcher.Guarded (fun s run => Replaces s run ∧ Fits s run) s runs →
      fetcher.Along (fun s => Latest s ∧ Blocking platform s) s runs) := by
  constructor
  · refine along_iff_guarded id ?_ ?_ start runs
    · intro s run t latest replaces stepped
      cases stepped
      exact (latest_iff_replaces latest).mpr replaces
    · intro s run t latest stepped after
      cases stepped
      exact (latest_iff_replaces latest).mp after
  · intro guarded
    refine along_of_guarded (fun s => Latest s ∧ Screenable s) ?_ ?_ ⟨start, screenable⟩ guarded
    · rintro s ⟨latest, screenable⟩
      exact ⟨latest, screenable.blocking platform⟩
    · rintro s run t ⟨latest, screenable⟩ ⟨replaces, fits⟩ stepped
      cases stepped
      exact ⟨(latest_iff_replaces latest).mpr replaces, screenable.fetch latest replaces fits⟩

/-- A run of which nothing fails, for a list of one entry. -/
def refresh (day name address : String) : Run where
  source := .ofac_sdn
  day := day
  response := .ok [{ (listed 0 (some name) (some address)).toFetchedEntry with listVersion := day }]
  count := .done
  updateMany := .done
  createMany := [.done]

def noLists : State := ⟨[], 0, fun _ => []⟩

theorem screenable_noLists : Screenable noLists := by
  refine ⟨by decide, fun source entry member => ?_⟩
  cases member

theorem fits_refresh (few : s.sanctionsList.length ≤ 100) (long : 10 ≤ length address) :
    Fits s (refresh day name address) := by
  intro entries found
  obtain rfl := Option.some.inj found
  constructor
  · intro entry member other carries _
    obtain rfl := List.mem_singleton.mp member
    cases carries
    exact long
  · have fewer : ∑ other ∈ Finset.univ.erase (refresh day name address).source, (s.active other).length ≤
        ∑ other, (s.active other).length := Finset.sum_le_sum_of_subset (Finset.erase_subset _ _)
    rw [← length_active] at fewer
    have all := List.length_filter_le SanctionsList.isActive s.sanctionsList
    simp only [List.length_map, List.length_singleton]
    omega

theorem active_list_latest_twice :
    fetcher.Along (fun s => Latest s ∧ Blocking asciiPlatform s) noLists
      [refresh "2024-03-01" "john doe" "gabcdefghij", refresh "2024-03-01" "jane roe" "gzyxwvutsrq"] := by
  refine (active_list_latest_iff asciiPlatform noLists _ (fun _ => .nil) screenable_noLists).2 ?_
  rintro s ⟨⟩
  refine ⟨⟨?_, fits_refresh (by decide) (by decide)⟩, ?_⟩
  · change ∀ entry ∈ noLists.active .ofac_sdn, entry.listVersion = "2024-03-01"
    decide
  rintro s ⟨⟩
  refine ⟨⟨?_, fits_refresh (by decide) (by decide)⟩, trivial⟩
  change ∀ entry ∈ State.active _ .ofac_sdn, entry.listVersion = "2024-03-01"
  decide

/-- The list of the day before stays active. -/
theorem active_list_superseded : ¬ ∀ runs : List Run, fetcher.Along Latest noLists runs := by
  intro claimed
  obtain ⟨_, later⟩ := claimed
    [refresh "2024-03-01" "john doe" "gabcdefghij", refresh "2024-03-02" "jane roe" "gzyxwvutsrq"]
  obtain ⟨_, later⟩ := later _ rfl
  have same := (later _ rfl .ofac_sdn).length_eq
  revert same
  decide

end Octraban.Compliance
