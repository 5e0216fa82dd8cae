import Octraban.Core.Transition
import Mathlib.Data.List.Sort
import Mathlib.Data.String.Basic

/-! archiver.ts: pages of old transactions are uploaded and emptied, and the next page is found
by a cursor on the last row of the one before. -/
namespace Octraban.Archiver
open Transition System

/-- A row of `transaction`; ids are in the order of the database. -/
structure Transaction (I : Type) where
  id : I
  hash : String
  ledgerSequence : Int
  ledgerCloseTime : Int
  contractAddress : Option String
  rawXdr : String

structure Table (I : Type) [LinearOrder I] where
  rows : List (Transaction I)
  ordered : rows.Pairwise fun a b => a.id < b.id

/-- What is stored as JSON. -/
structure Payload where
  hash : String
  ledgerSequence : Int
  ledgerCloseTime : String
  contractAddress : Option String
  rawXdr : String

structure ArchivalResult where
  archived : Nat
  nullified : Nat
  errors : Nat

structure Config where
  RAW_XDR_RETENTION_DAYS : Int
  ARCHIVE_BATCH_SIZE : Nat

/-- What `archiveRawXdr` awaits: a page after the cursor, the uploads of a page, or the update
of the rows uploaded. -/
inductive Worker (I : Type) where
  | idle
  | reading (cutoff : Int) (cursor : Option I) (result : ArchivalResult)
  | uploading (cutoff : Int) (cursor : I) (pending : List (Transaction I)) (toNullify : List I) (result : ArchivalResult)
  | nullifying (cutoff : Int) (cursor : I) (toNullify : List I) (result : ArchivalResult)

/-- `stored` lists every object that was stored, with its key. -/
structure State (I : Type) [LinearOrder I] where
  transaction : Table I
  stored : List (String × Payload)
  worker : Worker I
  returned : List ArchivalResult

def padStart (width : Nat) (text : String) : String :=
  String.ofList (List.replicate (width - text.length) '0') ++ text

/-- Year, month and day of a time, in the Gregorian calendar and UTC. -/
def civil (ms : Int) : Int × Nat × Nat :=
  let z := ms / 86400000 + 719468
  let dayOfEra := (z % 146097).toNat
  let yearOfEra := (dayOfEra - dayOfEra / 1460 + dayOfEra / 36524 - dayOfEra / 146096) / 365
  let dayOfYear := dayOfEra - (365 * yearOfEra + yearOfEra / 4 - yearOfEra / 100)
  let shifted := (5 * dayOfYear + 2) / 153
  let month := if shifted < 10 then shifted + 3 else shifted - 9
  (yearOfEra + z / 146097 * 400 + (if month ≤ 2 then 1 else 0), month, dayOfYear - (153 * shifted + 2) / 5 + 1)

def toISOString (ms : Int) : String :=
  let (year, month, day) := civil ms
  let clock (unit base : Int) : Nat := (ms / unit % base).toNat
  let yearText := if 0 ≤ year ∧ year ≤ 9999 then padStart 4 (toString year)
    else (if year < 0 then "-" else "+") ++ padStart 6 (toString year.natAbs)
  yearText ++ "-" ++ padStart 2 (toString month) ++ "-" ++ padStart 2 (toString day) ++ "T" ++
    padStart 2 (toString (clock 3600000 24)) ++ ":" ++ padStart 2 (toString (clock 60000 60)) ++ ":" ++
    padStart 2 (toString (clock 1000 60)) ++ "." ++ padStart 3 (toString (clock 1 1000)) ++ "Z"

variable {I : Type} [LinearOrder I]

def Transaction.key (tx : Transaction I) : String :=
  let (year, month, _) := civil tx.ledgerCloseTime
  "xdr/" ++ toString year ++ "/" ++ padStart 2 (toString month) ++ "/" ++ toString tx.ledgerSequence ++ "/" ++
    tx.hash ++ ".json"

def Transaction.payload (tx : Transaction I) : Payload where
  hash := tx.hash
  ledgerSequence := tx.ledgerSequence
  ledgerCloseTime := toISOString tx.ledgerCloseTime
  contractAddress := tx.contractAddress
  rawXdr := tx.rawXdr

/-- `where: { ledgerCloseTime: { lt: cutoff }, rawXdr: { not: '' } }` -/
def eligible (cutoff : Int) (tx : Transaction I) : Bool := tx.ledgerCloseTime < cutoff && tx.rawXdr ≠ ""

/-- The first rows that match; after a cursor, those from its id on without the first. -/
def findMany (take : Nat) (table : Table I) (cutoff : Int) : Option I → List (Transaction I)
  | none => (table.rows.filter (eligible cutoff)).take take
  | some cursor => (((table.rows.filter (eligible cutoff)).filter (cursor ≤ ·.id)).drop 1).take take

def empty (ids : List I) (tx : Transaction I) : Transaction I := if tx.id ∈ ids then { tx with rawXdr := "" } else tx

theorem empty_id (ids : List I) (tx : Transaction I) : (empty ids tx).id = tx.id := by
  rw [empty]
  split <;> rfl

/-- `updateMany({ where: { id: { in: ids } }, data: { rawXdr: '' } })` -/
def updateMany (table : Table I) (ids : List I) : Table I where
  rows := table.rows.map (empty ids)
  ordered := by
    rw [List.pairwise_map]
    simpa only [empty_id] using table.ordered

/-- An access may be carried out and its answer lost. -/
inductive Answer where
  | done
  | refused
  | lost

inductive Act where
  | archiveRawXdr (now : Int)
  | findMany (answer : Answer)
  | upload (i : Nat) (answer : Answer)
  | updateMany (answer : Answer)
  | crash

/-- `allSettled` resolves with the last upload. -/
def settle (cutoff : Int) (cursor : I) (toNullify : List I) (result : ArchivalResult) :
    List (Transaction I) → Worker I
  | [] =>
    if toNullify.length > 0 then .nullifying cutoff cursor toNullify result else .reading cutoff (some cursor) result
  | pending => .uploading cutoff cursor pending toNullify result

def State.upload (s : State I) (tx : Transaction I) : State I :=
  { s with stored := s.stored ++ [(tx.key, tx.payload)] }

def cutoffAt (config : Config) (now : Int) : Int := now - config.RAW_XDR_RETENTION_DAYS * 24 * 60 * 60 * 1000

def begun (config : Config) (s : State I) (now : Int) : State I :=
  { s with worker := .reading (cutoffAt config now) none ⟨0, 0, 0⟩ }

def step (config : Config) (s : State I) : Act → Option (State I)
  | .archiveRawXdr now =>
    match s.worker with
    | .idle => some (begun config s now)
    | _ => none
  | .findMany answer =>
    match s.worker, answer with
    | .reading cutoff cursor result, .done =>
      let rows := findMany config.ARCHIVE_BATCH_SIZE s.transaction cutoff cursor
      match rows.getLast? with
      | none => some { s with worker := .idle, returned := s.returned ++ [result] }
      | some last => some { s with worker := .uploading cutoff last.id rows [] result }
    | .reading _ _ _, _ => some { s with worker := .idle }
    | _, _ => none
  | .upload i answer =>
    match s.worker with
    | .uploading cutoff cursor pending toNullify result =>
      pending[i]?.map fun tx =>
        let rest := pending.eraseIdx i
        match answer with
        | .done => { s.upload tx with
            worker := settle cutoff cursor (toNullify ++ [tx.id]) { result with archived := result.archived + 1 } rest }
        | .refused => { s with worker := settle cutoff cursor toNullify { result with errors := result.errors + 1 } rest }
        | .lost => { s.upload tx with
            worker := settle cutoff cursor toNullify { result with errors := result.errors + 1 } rest }
    | _ => none
  | .updateMany answer =>
    match s.worker with
    | .nullifying cutoff cursor toNullify result =>
      match answer with
      | .done => some { s with
          transaction := updateMany s.transaction toNullify
          worker := .reading cutoff (some cursor) { result with nullified := result.nullified + toNullify.length } }
      | .refused => some { s with worker := .idle }
      | .lost => some { s with transaction := updateMany s.transaction toNullify, worker := .idle }
    | _ => none
  | .crash => some { s with worker := .idle }

def archiver (config : Config) : System (State I) Act where
  initial s := s.worker = .idle
  step := step config

/-- A row is as it was, or it is emptied and its payload was stored under its key. -/
def Kept (stored : List (String × Payload)) (before after : Transaction I) : Prop :=
  after = before ∨ after = { before with rawXdr := "" } ∧ (before.key, before.payload) ∈ stored

/-- Every row of a table is kept in a later state. -/
def KeptAll (table : Table I) (s : State I) : Prop := List.Forall₂ (Kept s.stored) table.rows s.transaction.rows

/-- A step of a run without failures. -/
def Faultless : Act → Prop
  | .findMany .done | .upload _ .done | .updateMany .done => True
  | _ => False

/-- What a step of a run without failures does. -/
inductive Proceeds (config : Config) (s : State I) : State I → Prop where
  | ends (working : s.worker = .reading cutoff cursor result)
      (page : findMany config.ARCHIVE_BATCH_SIZE s.transaction cutoff cursor = []) :
      Proceeds config s { s with worker := .idle, returned := s.returned ++ [result] }
  | reads (working : s.worker = .reading cutoff cursor result)
      (final : (findMany config.ARCHIVE_BATCH_SIZE s.transaction cutoff cursor).getLast? = some last) :
      Proceeds config s { s with
        worker := .uploading cutoff last.id (findMany config.ARCHIVE_BATCH_SIZE s.transaction cutoff cursor) [] result }
  | uploads (working : s.worker = .uploading cutoff cursor pending toNullify result) (at_ : pending[i]? = some tx) :
      Proceeds config s { s.upload tx with
        worker := settle cutoff cursor (toNullify ++ [tx.id]) { result with archived := result.archived + 1 }
          (pending.eraseIdx i) }
  | empties (working : s.worker = .nullifying cutoff cursor toNullify result) :
      Proceeds config s { s with
        transaction := updateMany s.transaction toNullify
        worker := .reading cutoff (some cursor) { result with nullified := result.nullified + toNullify.length } }

/-- Every run without failures comes to an end, and leaves no row to archive. -/
def Completes (config : Config) (cutoff : Int) (s : State I) : Prop :=
  ∃ bound, ∀ labels t, (∀ a ∈ labels, Faultless a) → (archiver config).run s labels = some t →
    labels.length ≤ bound ∧
    (t.worker ≠ .idle → ∃ a, Faultless a ∧ ∃ u, step config t a = some u) ∧
    (t.worker = .idle → ∀ tx ∈ t.transaction.rows, eligible cutoff tx = false)

variable {config : Config} {s t : State I} {a : Act} {cutoff : Int} {cursor : I} {table : Table I}
  {tx row : Transaction I} {stored more : List (String × Payload)}

/-! ### Nothing is lost -/

omit [LinearOrder I] in
theorem Kept.mono (kept : Kept stored tx row) : Kept (stored ++ more) tx row :=
  kept.imp_right fun ⟨emptied, member⟩ => ⟨emptied, List.mem_append_left _ member⟩

/-- The rows in progress are in the table, and those to be emptied are stored. -/
def InProgress (s : State I) : Prop :=
  match s.worker with
  | .idle | .reading _ _ _ => True
  | .uploading _ _ pending toNullify _ =>
    (∀ tx ∈ pending, tx ∈ s.transaction.rows) ∧
      ∀ tx ∈ s.transaction.rows, tx.id ∈ toNullify → (tx.key, tx.payload) ∈ s.stored
  | .nullifying _ _ toNullify _ => ∀ tx ∈ s.transaction.rows, tx.id ∈ toNullify → (tx.key, tx.payload) ∈ s.stored

structure Safe (table : Table I) (s : State I) : Prop where
  kept : KeptAll table s
  progress : InProgress s

theorem id_inj (first : tx ∈ table.rows) (second : row ∈ table.rows) (same : tx.id = row.id) : tx = row := by
  obtain ⟨rows, ordered⟩ := table
  change tx ∈ rows at first
  change row ∈ rows at second
  induction rows with
  | nil => cases first
  | cons head rest ih =>
    obtain ⟨before, ordered⟩ := List.pairwise_cons.mp ordered
    rcases List.mem_cons.mp first with rfl | later
    · rcases List.mem_cons.mp second with rfl | later
      · rfl
      · exact absurd same (before row later).ne
    · rcases List.mem_cons.mp second with rfl | later'
      · exact absurd same (before tx later).ne'
      · exact ih ordered later later'

theorem findMany_sublist (take : Nat) (table : Table I) (cutoff : Int) (cursor : Option I) :
    (findMany take table cutoff cursor).Sublist (table.rows.filter (eligible cutoff)) := by
  cases cursor with
  | none => exact List.take_sublist _ _
  | some c => exact ((List.take_sublist _ _).trans (List.drop_sublist _ _)).trans List.filter_sublist

omit [LinearOrder I] in
/-- The stage after an upload: more of them, else what they have stored is emptied, if anything. -/
theorem settle_cases (cutoff : Int) (cursor : I) (toNullify : List I) (result : ArchivalResult)
    (pending : List (Transaction I)) :
    (pending ≠ [] ∧ settle cutoff cursor toNullify result pending = .uploading cutoff cursor pending toNullify result) ∨
      (pending = [] ∧ settle cutoff cursor toNullify result pending = .nullifying cutoff cursor toNullify result) ∨
      (pending = [] ∧ toNullify = [] ∧
        settle cutoff cursor toNullify result pending = .reading cutoff (some cursor) result) := by
  cases pending with
  | cons tx rest => exact .inl ⟨List.cons_ne_nil tx rest, rfl⟩
  | nil =>
    cases toNullify with
    | nil => exact .inr (.inr ⟨rfl, rfl, rfl⟩)
    | cons first others => exact .inr (.inl ⟨rfl, rfl⟩)

/-- What the last upload leads to needs no more than the stage before. -/
theorem inProgress_settle {pending : List (Transaction I)} (rows : ∀ tx ∈ pending, tx ∈ s.transaction.rows)
    (uploaded : ∀ tx ∈ s.transaction.rows, tx.id ∈ toNullify → (tx.key, tx.payload) ∈ s.stored)
    (worker : s.worker = settle cutoff cursor toNullify result pending) : InProgress s := by
  rw [InProgress, worker]
  obtain ⟨_, next⟩ | ⟨_, next⟩ | ⟨_, _, next⟩ := settle_cases cutoff cursor toNullify result pending
  · rw [next]
    exact ⟨rows, uploaded⟩
  · rw [next]
    exact uploaded
  · rw [next]
    trivial

theorem kept_empty {before after : List (Transaction I)} (kept : List.Forall₂ (Kept stored) before after)
    (uploaded : ∀ tx ∈ after, tx.id ∈ ids → (tx.key, tx.payload) ∈ stored) :
    List.Forall₂ (Kept stored) before (after.map (empty ids)) := by
  induction kept with
  | nil => exact .nil
  | cons first rest ih =>
    obtain ⟨here, later⟩ := List.forall_mem_cons.mp uploaded
    refine .cons ?_ (ih later)
    rw [empty]
    split
    · rename_i member
      rcases first with rfl | ⟨rfl, member'⟩
      · exact .inr ⟨rfl, here member⟩
      · exact .inr ⟨rfl, member'⟩
    · exact first

theorem KeptAll.updateMany (kept : KeptAll table s) (ids : List I)
    (uploaded : ∀ tx ∈ s.transaction.rows, tx.id ∈ ids → (tx.key, tx.payload) ∈ s.stored) (worker : Worker I) :
    KeptAll table { s with transaction := updateMany s.transaction ids, worker := worker } :=
  kept_empty kept uploaded

theorem Safe.step (safe : Safe table s) (stepped : step config s a = some t) : Safe table t := by
  obtain ⟨kept, progress⟩ := safe
  have stops : Safe table { s with worker := .idle } := ⟨kept, trivial⟩
  cases a with
  | archiveRawXdr now =>
    cases working : s.worker <;> simp only [Archiver.step, working, Option.some.injEq, reduceCtorEq] at stepped
    subst stepped
    exact ⟨kept, trivial⟩
  | findMany answer =>
    cases working : s.worker with
    | reading cutoff cursor result =>
      cases answer with
      | done =>
        simp only [Archiver.step, working] at stepped
        cases last : (findMany config.ARCHIVE_BATCH_SIZE s.transaction cutoff cursor).getLast? with
        | none =>
          simp only [last, Option.some.injEq] at stepped
          subst stepped
          exact ⟨kept, trivial⟩
        | some final =>
          simp only [last, Option.some.injEq] at stepped
          subst stepped
          refine ⟨kept, fun tx member => ?_, fun _ _ impossible => (List.not_mem_nil impossible).elim⟩
          exact (List.mem_filter.mp ((findMany_sublist _ _ _ _).subset member)).1
      | refused | lost =>
        simp only [Archiver.step, working, Option.some.injEq] at stepped
        subst stepped
        exact stops
    | idle | uploading _ _ _ _ _ | nullifying _ _ _ _ =>
      cases answer <;> simp [Archiver.step, working] at stepped
  | upload i answer =>
    cases working : s.worker with
    | uploading cutoff cursor pending toNullify result =>
      simp only [Archiver.step, working, Option.map_eq_some_iff] at stepped
      obtain ⟨tx, at_, rfl⟩ := stepped
      simp only [InProgress, working] at progress
      obtain ⟨rows, uploaded⟩ := progress
      have present : tx ∈ s.transaction.rows := rows tx (List.mem_of_getElem? at_)
      have rest : ∀ tx ∈ pending.eraseIdx i, tx ∈ s.transaction.rows := fun tx member =>
        rows tx (List.mem_of_mem_eraseIdx member)
      cases answer with
      | done =>
        refine ⟨kept.imp fun _ _ => Kept.mono, inProgress_settle rest (fun row member listed => ?_) rfl⟩
        rcases List.mem_append.mp listed with before | new
        · exact List.mem_append_left _ (uploaded row member before)
        · have same : row = tx := id_inj member present (List.mem_singleton.mp new)
          subst same
          exact List.mem_append_right _ List.mem_cons_self
      | refused => exact ⟨kept, inProgress_settle rest uploaded rfl⟩
      | lost =>
        refine ⟨kept.imp fun _ _ => Kept.mono, inProgress_settle rest (fun row member listed => ?_) rfl⟩
        exact List.mem_append_left _ (uploaded row member listed)
    | idle | reading _ _ _ | nullifying _ _ _ _ => simp [Archiver.step, working] at stepped
  | updateMany answer =>
    cases working : s.worker with
    | nullifying cutoff cursor toNullify result =>
      simp only [InProgress, working] at progress
      cases answer with
      | done =>
        simp only [Archiver.step, working, Option.some.injEq] at stepped
        subst stepped
        exact ⟨kept.updateMany toNullify progress _, trivial⟩
      | refused =>
        simp only [Archiver.step, working, Option.some.injEq] at stepped
        subst stepped
        exact stops
      | lost =>
        simp only [Archiver.step, working, Option.some.injEq] at stepped
        subst stepped
        exact ⟨kept.updateMany toNullify progress _, trivial⟩
    | idle | reading _ _ _ | uploading _ _ _ _ _ => simp [Archiver.step, working] at stepped
  | crash =>
    cases stepped
    exact stops

/-! ### A run comes to an end -/

/-- How many rows are after a cursor. -/
def after (s : State I) (cursor : I) : Nat := (s.transaction.rows.filter (cursor < ·.id)).length

def measure (s : State I) : Nat :=
  match s.worker with
  | .idle => 0
  | .reading _ none _ => 3 * s.transaction.rows.length + 1
  | .reading _ (some cursor) _ => 3 * after s cursor + 1
  | .uploading _ cursor pending _ _ => 3 * after s cursor + pending.length + 2
  | .nullifying _ cursor _ _ => 3 * after s cursor + 2

theorem pairwise_findMany (take : Nat) (table : Table I) (cutoff : Int) (cursor : Option I) :
    (findMany take table cutoff cursor).Pairwise fun a b => a.id < b.id :=
  table.ordered.sublist ((findMany_sublist take table cutoff cursor).trans List.filter_sublist)

/-- A page is after its cursor: the first row from the cursor on is left out. -/
theorem findMany_after (take : Nat) (table : Table I) (cutoff : Int) (cursor : I)
    (member : tx ∈ findMany take table cutoff (some cursor)) : cursor < tx.id := by
  have from_cursor : ∀ row ∈ (table.rows.filter (eligible cutoff)).filter (cursor ≤ ·.id), cursor ≤ row.id :=
    fun row listed => of_decide_eq_true (List.mem_filter.mp listed).2
  have ordered : ((table.rows.filter (eligible cutoff)).filter (cursor ≤ ·.id)).Pairwise fun a b => a.id < b.id :=
    table.ordered.sublist (List.filter_sublist.trans List.filter_sublist)
  have rest := List.mem_of_mem_take member
  generalize (table.rows.filter (eligible cutoff)).filter (cursor ≤ ·.id) = found at from_cursor ordered rest
  cases found with
  | nil => exact (List.not_mem_nil rest).elim
  | cons first others =>
    have less := (List.pairwise_cons.mp ordered).1 tx rest
    exact (from_cursor first List.mem_cons_self).trans_lt less

theorem le_getLast {rows : List (Transaction I)} {last : Transaction I} (ordered : rows.Pairwise fun a b => a.id < b.id)
    (final : rows.getLast? = some last) (member : tx ∈ rows) : tx.id ≤ last.id := by
  obtain ⟨front, rfl⟩ := List.getLast?_eq_some_iff.mp final
  rcases List.mem_append.mp member with before | same
  · exact ((List.pairwise_append.mp ordered).2.2 tx before last (List.mem_singleton.mpr rfl)).le
  · exact (List.mem_singleton.mp same ▸ le_rfl)

/-- The rows of a page are no longer after the next cursor. -/
theorem length_page {P : Transaction I → Bool} {page : List (Transaction I)} {last : Transaction I}
    (sublist : page.Sublist s.transaction.rows) (all : ∀ tx ∈ page, P tx = true)
    (upto : ∀ tx ∈ page, tx.id ≤ last.id) (later : ∀ tx ∈ s.transaction.rows, last.id < tx.id → P tx = true) :
    page.length + after s last.id ≤ (s.transaction.rows.filter P).length := by
  have split := List.length_eq_countP_add_countP (fun tx : Transaction I => decide (last.id < tx.id))
    (l := s.transaction.rows.filter P)
  have within : page.Sublist ((s.transaction.rows.filter P).filter fun tx => !decide (last.id < tx.id)) := by
    have filtered := (sublist.filter P).filter fun tx => !decide (last.id < tx.id)
    rw [List.filter_eq_self.mpr all, List.filter_eq_self.mpr] at filtered
    · exact filtered
    · intro tx member
      simpa using upto tx member
  have behind : (s.transaction.rows.filter P).filter (fun tx => decide (last.id < tx.id)) =
      s.transaction.rows.filter fun tx => decide (last.id < tx.id) := by
    rw [List.filter_filter]
    refine List.filter_congr fun tx member => ?_
    by_cases less : last.id < tx.id
    · simp [less, later tx member less]
    · simp [less]
  have pageLength := within.length_le
  have afterLength :
      after s last.id = ((s.transaction.rows.filter P).filter fun tx => decide (last.id < tx.id)).length := by
    rw [behind]
    rfl
  rw [List.countP_eq_length_filter, List.countP_eq_length_filter] at split
  simp only [Bool.decide_eq_true, decide_not] at split
  omega

theorem proceeds_of_step (faultless : Faultless a) (stepped : step config s a = some t) : Proceeds config s t := by
  cases a with
  | archiveRawXdr now | crash => exact faultless.elim
  | findMany answer =>
    cases answer with
    | refused | lost => exact faultless.elim
    | done =>
      cases working : s.worker with
      | reading cutoff cursor result =>
        simp only [Archiver.step, working] at stepped
        cases final : (findMany config.ARCHIVE_BATCH_SIZE s.transaction cutoff cursor).getLast? with
        | none =>
          simp only [final, Option.some.injEq] at stepped
          subst stepped
          exact .ends working (List.getLast?_eq_none_iff.mp final)
        | some last =>
          simp only [final, Option.some.injEq] at stepped
          subst stepped
          exact .reads working final
      | idle | uploading _ _ _ _ _ | nullifying _ _ _ _ => simp [Archiver.step, working] at stepped
  | upload i answer =>
    cases answer with
    | refused | lost => exact faultless.elim
    | done =>
      cases working : s.worker with
      | uploading cutoff cursor pending toNullify result =>
        simp only [Archiver.step, working, Option.map_eq_some_iff] at stepped
        obtain ⟨tx, at_, rfl⟩ := stepped
        exact .uploads working at_
      | idle | reading _ _ _ | nullifying _ _ _ _ => simp [Archiver.step, working] at stepped
  | updateMany answer =>
    cases answer with
    | refused | lost => exact faultless.elim
    | done =>
      cases working : s.worker with
      | nullifying cutoff cursor toNullify result =>
        simp only [Archiver.step, working, Option.some.injEq] at stepped
        subst stepped
        exact .empties working
      | idle | reading _ _ _ | uploading _ _ _ _ _ => simp [Archiver.step, working] at stepped

theorem measure_settle (s : State I) (cutoff : Int) (cursor : I) (toNullify : List I) (result : ArchivalResult)
    (pending : List (Transaction I)) :
    measure { s with worker := settle cutoff cursor toNullify result pending } ≤
      3 * after s cursor + pending.length + 2 := by
  obtain ⟨_, next⟩ | ⟨rfl, next⟩ | ⟨rfl, _, next⟩ := settle_cases cutoff cursor toNullify result pending
  · rw [next]
    exact le_rfl
  · rw [next]
    exact le_rfl
  · rw [next]
    change 3 * after s cursor + 1 ≤ 3 * after s cursor + 2
    omega

theorem after_updateMany (s : State I) (ids : List I) (worker : Worker I) (cursor : I) :
    after { s with transaction := updateMany s.transaction ids, worker := worker } cursor = after s cursor := by
  rw [after, updateMany]
  rw [List.filter_map, List.length_map]
  refine congrArg List.length (List.filter_congr fun tx _ => ?_)
  simp only [Function.comp_apply, empty_id]

/-- A page that is read takes the worker further on. -/
theorem measure_page {last : Transaction I} {cursor : Option I} (working : s.worker = .reading cutoff cursor result)
    (final : (findMany take s.transaction cutoff cursor).getLast? = some last) :
    3 * after s last.id + (findMany take s.transaction cutoff cursor).length + 2 < measure s := by
  have upto : ∀ tx ∈ findMany take s.transaction cutoff cursor, tx.id ≤ last.id := fun tx member =>
    le_getLast (pairwise_findMany take s.transaction cutoff cursor) final member
  have sublist := (findMany_sublist take s.transaction cutoff cursor).trans List.filter_sublist
  have listed := List.mem_of_getLast? final
  have positive := List.length_pos_of_mem listed
  rw [measure, working]
  cases cursor with
  | none =>
    have shrinks := length_page (s := s) (P := fun _ => true) sublist (fun _ _ => rfl) upto fun _ _ _ => rfl
    rw [List.filter_true] at shrinks
    change _ < 3 * s.transaction.rows.length + 1
    omega
  | some c =>
    have within : ∀ tx ∈ findMany take s.transaction cutoff (some c), decide (c < tx.id) = true := fun tx member =>
      decide_eq_true (findMany_after take s.transaction cutoff c member)
    have beyond : ∀ tx ∈ s.transaction.rows, last.id < tx.id → decide (c < tx.id) = true := fun tx _ less =>
      decide_eq_true ((findMany_after take s.transaction cutoff c listed).trans less)
    have shrinks := length_page (s := s) (P := fun tx => decide (c < tx.id)) sublist within upto beyond
    change _ < 3 * after s c + 1
    change _ ≤ after s c at shrinks
    omega

theorem Proceeds.measure_lt (proceeds : Proceeds config s t) : measure t < measure s := by
  cases proceeds with
  | @ends cutoff cursor result working page =>
    change 0 < measure s
    rw [measure, working]
    cases cursor <;> exact Nat.succ_pos _
  | reads working final => exact measure_page working final
  | @uploads cutoff cursor pending toNullify result i tx working at_ =>
    obtain ⟨inside, _⟩ := List.getElem?_eq_some_iff.mp at_
    have settled := measure_settle (s.upload tx) cutoff cursor (toNullify ++ [tx.id])
      { result with archived := result.archived + 1 } (pending.eraseIdx i)
    have shorter : (pending.eraseIdx i).length + 1 = pending.length := List.length_eraseIdx_add_one inside
    have before : measure s = 3 * after s cursor + pending.length + 2 := by
      rw [measure, working]
    refine settled.trans_lt ?_
    change 3 * after s cursor + _ + 2 < measure s
    omega
  | @empties cutoff cursor toNullify result working =>
    have before : measure s = 3 * after s cursor + 2 := by
      rw [measure, working]
    rw [before]
    change 3 * after _ cursor + 1 < _
    rw [after_updateMany]
    omega

theorem measure_falls (faultless : Faultless a) (stepped : (archiver config).step s a = some t) :
    measure t < measure s :=
  (proceeds_of_step faultless stepped).measure_lt

/-- While uploads are awaited there is one. -/
def Awaits (s : State I) : Prop :=
  match s.worker with
  | .uploading _ _ pending _ _ => pending ≠ []
  | _ => True

theorem awaits_settle {pending : List (Transaction I)}
    (worker : s.worker = settle cutoff cursor toNullify result pending) :
    Awaits s := by
  rw [Awaits, worker]
  obtain ⟨more, next⟩ | ⟨_, next⟩ | ⟨_, _, next⟩ := settle_cases cutoff cursor toNullify result pending
  · rw [next]
    exact more
  · rw [next]
    trivial
  · rw [next]
    trivial

theorem Proceeds.awaits (proceeds : Proceeds config s t) : Awaits t := by
  cases proceeds with
  | ends working page | empties working => trivial
  | reads working final => exact List.ne_nil_of_mem (List.mem_of_getLast? final)
  | uploads working at_ => exact awaits_settle rfl

theorem progress (awaits : Awaits s) (working : s.worker ≠ .idle) :
    ∃ a, Faultless a ∧ ∃ t, step config s a = some t := by
  rw [Awaits] at awaits
  cases worker : s.worker with
  | idle => exact absurd worker working
  | reading cutoff cursor result =>
    refine ⟨.findMany .done, trivial, ?_⟩
    simp only [step, worker]
    cases (findMany config.ARCHIVE_BATCH_SIZE s.transaction cutoff cursor).getLast? with
    | none => exact ⟨_, rfl⟩
    | some last => exact ⟨_, rfl⟩
  | uploading cutoff cursor pending toNullify result =>
    rw [worker] at awaits
    obtain ⟨tx, rest, rfl⟩ := List.exists_cons_of_ne_nil awaits
    refine ⟨.upload 0 .done, trivial, ?_⟩
    simp only [step, worker]
    exact ⟨_, rfl⟩
  | nullifying cutoff cursor toNullify result =>
    refine ⟨.updateMany .done, trivial, ?_⟩
    simp only [step, worker]
    exact ⟨_, rfl⟩

/-! ### What a run leaves -/

/-- A page of all the rows leaves none: each is awaited, uploaded or emptied. -/
def Covers (cutoff : Int) (take : Nat) (s : State I) : Prop :=
  match s.worker with
  | .idle => ∀ tx ∈ s.transaction.rows, eligible cutoff tx = false
  | .reading before none _ => before = cutoff ∧ (s.transaction.rows.filter (eligible cutoff)).length ≤ take
  | .reading before (some _) _ => before = cutoff ∧ ∀ tx ∈ s.transaction.rows, eligible cutoff tx = false
  | .uploading before _ pending toNullify _ => before = cutoff ∧
      ∀ tx ∈ s.transaction.rows, eligible cutoff tx = true → tx ∈ pending ∨ tx.id ∈ toNullify
  | .nullifying before _ toNullify _ => before = cutoff ∧
      ∀ tx ∈ s.transaction.rows, eligible cutoff tx = true → tx.id ∈ toNullify

/-- A row is missed: it is neither awaited nor uploaded, and no page to come has it. -/
def Misses (cutoff : Int) (take : Nat) (s : State I) : Prop :=
  match s.worker with
  | .idle => ∃ tx ∈ s.transaction.rows, eligible cutoff tx = true
  | .reading before none _ => before = cutoff ∧ take < (s.transaction.rows.filter (eligible cutoff)).length
  | .reading before (some _) _ => before = cutoff ∧ ∃ tx ∈ s.transaction.rows, eligible cutoff tx = true
  | .uploading before _ pending toNullify _ => before = cutoff ∧
      ∃ tx ∈ s.transaction.rows, eligible cutoff tx = true ∧ (∀ row ∈ pending, row.id ≠ tx.id) ∧ tx.id ∉ toNullify
  | .nullifying before _ toNullify _ => before = cutoff ∧
      ∃ tx ∈ s.transaction.rows, eligible cutoff tx = true ∧ tx.id ∉ toNullify

theorem eligible_empty (ids : List I) (tx : Transaction I) :
    eligible cutoff (empty ids tx) = (eligible cutoff tx && decide (tx.id ∉ ids)) := by
  simp only [empty, eligible]
  by_cases member : tx.id ∈ ids
  · simp [member]
  · simp [member]

/-- The rows of a table that match are those of a page and those that the page leaves. -/
theorem mem_page_of_length (short : (table.rows.filter (eligible cutoff)).length ≤ take) (member : tx ∈ table.rows)
    (matching : eligible cutoff tx = true) : tx ∈ findMany take table cutoff none := by
  rw [findMany, List.take_of_length_le short]
  exact List.mem_filter.mpr ⟨member, matching⟩

/-- Of rows in order, the one after the first few is none of these. -/
theorem exists_after_take {rows : List (Transaction I)} (ordered : rows.Pairwise fun a b => a.id < b.id)
    (long : take < rows.length) : ∃ tx ∈ rows, ∀ row ∈ rows.take take, row.id ≠ tx.id := by
  have split := List.take_append_drop take rows
  obtain ⟨tx, rest, beyond⟩ := List.exists_cons_of_ne_nil (List.ne_nil_of_length_pos (l := rows.drop take)
    (by rw [List.length_drop]; omega))
  rw [beyond] at split
  rw [← split, List.pairwise_append] at ordered
  refine ⟨tx, ?_, fun row member => (ordered.2.2 row member tx List.mem_cons_self).ne⟩
  rw [← split]
  exact List.mem_append_right _ List.mem_cons_self

/-- A page after a cursor leaves a row where there is one: the first from the cursor on, or one before it. -/
theorem exists_missed (take : Nat) (cursor : I) (member : tx ∈ table.rows) (matching : eligible cutoff tx = true) :
    ∃ tx ∈ table.rows, eligible cutoff tx = true ∧
      ∀ row ∈ findMany take table cutoff (some cursor), row.id ≠ tx.id := by
  have ordered : ((table.rows.filter (eligible cutoff)).filter (cursor ≤ ·.id)).Pairwise fun a b => a.id < b.id :=
    table.ordered.sublist (List.filter_sublist.trans List.filter_sublist)
  have present : ∀ row ∈ (table.rows.filter (eligible cutoff)).filter (cursor ≤ ·.id),
      row ∈ table.rows ∧ eligible cutoff row = true := fun row listed =>
    List.mem_filter.mp (List.mem_filter.mp listed).1
  have page : findMany take table cutoff (some cursor) =
      (((table.rows.filter (eligible cutoff)).filter (cursor ≤ ·.id)).drop 1).take take := rfl
  rw [page]
  cases found : (table.rows.filter (eligible cutoff)).filter (cursor ≤ ·.id) with
  | nil =>
    refine ⟨tx, member, matching, fun row listed => ?_⟩
    rw [List.drop_nil, List.take_nil] at listed
    exact (List.not_mem_nil listed).elim
  | cons first others =>
    rw [found] at ordered present
    obtain ⟨inside, matching⟩ := present first List.mem_cons_self
    refine ⟨first, inside, matching, fun row listed => ?_⟩
    exact ((List.pairwise_cons.mp ordered).1 row (List.mem_of_mem_take listed)).ne'

theorem covers_settle {pending : List (Transaction I)}
    (worker : s.worker = settle cutoff cursor toNullify result pending)
    (covered : ∀ tx ∈ s.transaction.rows, eligible cutoff tx = true → tx ∈ pending ∨ tx.id ∈ toNullify) :
    Covers cutoff take s := by
  rw [Covers, worker]
  obtain ⟨_, next⟩ | ⟨rfl, next⟩ | ⟨rfl, rfl, next⟩ := settle_cases cutoff cursor toNullify result pending
  · rw [next]
    exact ⟨rfl, covered⟩
  · rw [next]
    exact ⟨rfl, fun tx member matching => (covered tx member matching).resolve_left List.not_mem_nil⟩
  · rw [next]
    refine ⟨rfl, fun tx member => Bool.eq_false_iff.mpr fun matching => ?_⟩
    exact (covered tx member matching).elim List.not_mem_nil List.not_mem_nil

theorem Proceeds.covers (proceeds : Proceeds config s t) (covers : Covers cutoff config.ARCHIVE_BATCH_SIZE s) :
    Covers cutoff config.ARCHIVE_BATCH_SIZE t := by
  cases proceeds with
  | @ends before cursor result working page =>
    rw [Covers, working] at covers
    intro tx member
    cases cursor with
    | some c => exact covers.2 tx member
    | none =>
      obtain ⟨rfl, short⟩ := covers
      refine Bool.eq_false_iff.mpr fun matching => ?_
      have listed := mem_page_of_length short member matching
      rw [page] at listed
      exact List.not_mem_nil listed
  | @reads before cursor last result working final =>
    rw [Covers, working] at covers
    cases cursor with
    | none =>
      obtain ⟨rfl, short⟩ := covers
      exact ⟨rfl, fun tx member matching => .inl (mem_page_of_length short member matching)⟩
    | some c =>
      obtain ⟨rfl, covered⟩ := covers
      refine ⟨rfl, fun tx member matching => ?_⟩
      rw [covered tx member] at matching
      cases matching
  | @uploads before cursor pending toNullify result i tx working at_ =>
    rw [Covers, working] at covers
    obtain ⟨rfl, covered⟩ := covers
    refine covers_settle rfl fun row member matching => ?_
    rcases covered row member matching with waiting | listed
    · by_cases same : row = tx
      · exact .inr (same ▸ List.mem_append_right _ List.mem_cons_self)
      · obtain ⟨j, at_j⟩ := List.mem_iff_getElem?.mp waiting
        have apart : j ≠ i := fun equal => same (Option.some.inj (at_j.symm.trans (equal ▸ at_)))
        exact .inl (List.mem_eraseIdx_iff_getElem?.mpr ⟨j, apart, at_j⟩)
    · exact .inr (List.mem_append_left _ listed)
  | @empties before cursor toNullify result working =>
    rw [Covers, working] at covers
    obtain ⟨rfl, covered⟩ := covers
    refine ⟨rfl, fun row member => Bool.eq_false_iff.mpr fun matching => ?_⟩
    obtain ⟨tx, present, rfl⟩ := List.mem_map.mp member
    rw [eligible_empty, Bool.and_eq_true, decide_eq_true_eq] at matching
    exact matching.2 (covered tx present matching.1)

theorem misses_settle {pending : List (Transaction I)}
    (worker : s.worker = settle cutoff cursor toNullify result pending)
    (member : tx ∈ s.transaction.rows) (matching : eligible cutoff tx = true)
    (waiting : ∀ row ∈ pending, row.id ≠ tx.id) (listed : tx.id ∉ toNullify) : Misses cutoff take s := by
  rw [Misses, worker]
  obtain ⟨_, next⟩ | ⟨_, next⟩ | ⟨_, _, next⟩ := settle_cases cutoff cursor toNullify result pending
  · rw [next]
    exact ⟨rfl, tx, member, matching, waiting, listed⟩
  · rw [next]
    exact ⟨rfl, tx, member, matching, listed⟩
  · rw [next]
    exact ⟨rfl, tx, member, matching⟩

theorem Proceeds.misses (proceeds : Proceeds config s t) (misses : Misses cutoff config.ARCHIVE_BATCH_SIZE s) :
    Misses cutoff config.ARCHIVE_BATCH_SIZE t := by
  cases proceeds with
  | @ends before cursor result working page =>
    rw [Misses, working] at misses
    cases cursor with
    | some c => exact misses.2
    | none =>
      obtain ⟨rfl, long⟩ := misses
      obtain ⟨tx, member, _⟩ := exists_after_take (s.transaction.ordered.sublist List.filter_sublist) long
      exact ⟨tx, List.mem_filter.mp member⟩
  | @reads before cursor last result working final =>
    rw [Misses, working] at misses
    cases cursor with
    | none =>
      obtain ⟨rfl, long⟩ := misses
      obtain ⟨tx, member, apart⟩ := exists_after_take (s.transaction.ordered.sublist List.filter_sublist) long
      obtain ⟨inside, matching⟩ := List.mem_filter.mp member
      exact ⟨rfl, tx, inside, matching, apart, List.not_mem_nil⟩
    | some c =>
      obtain ⟨rfl, tx, member, matching⟩ := misses
      obtain ⟨row, inside, matching, apart⟩ := exists_missed config.ARCHIVE_BATCH_SIZE c member matching
      exact ⟨rfl, row, inside, matching, apart, List.not_mem_nil⟩
  | @uploads before cursor pending toNullify result i row working at_ =>
    rw [Misses, working] at misses
    obtain ⟨rfl, tx, member, matching, waiting, listed⟩ := misses
    refine misses_settle rfl member matching (fun other rest => waiting other (List.mem_of_mem_eraseIdx rest)) ?_
    intro impossible
    rcases List.mem_append.mp impossible with before | new
    · exact listed before
    · exact waiting row (List.mem_of_getElem? at_) (List.mem_singleton.mp new).symm
  | @empties before cursor toNullify result working =>
    rw [Misses, working] at misses
    obtain ⟨rfl, tx, member, matching, listed⟩ := misses
    refine ⟨rfl, empty toNullify tx, List.mem_map_of_mem member, ?_⟩
    rw [eligible_empty, matching, Bool.true_and]
    exact decide_eq_true listed

theorem faultless_preserves {Q : State I → Prop} (kept : ∀ {s t}, Proceeds config s t → Q s → Q t) {s t : State I}
    {a : Act} (inv : Awaits s ∧ Q s) (faultless : Faultless a) (stepped : (archiver config).step s a = some t) :
    Awaits t ∧ Q t := by
  have proceeds := proceeds_of_step faultless stepped
  exact ⟨proceeds.awaits, kept proceeds inv.2⟩

theorem completes_of_short (s : State I) (now : Int)
    (short : (s.transaction.rows.filter (eligible (cutoffAt config now))).length ≤ config.ARCHIVE_BATCH_SIZE) :
    Completes config (cutoffAt config now) (begun config s now) := by
  have start : Awaits (begun config s now) ∧
      Covers (cutoffAt config now) config.ARCHIVE_BATCH_SIZE (begun config s now) := ⟨trivial, rfl, short⟩
  refine ⟨measure (begun config s now), fun labels t faultless executed => ?_⟩
  obtain ⟨awaits, covers⟩ := run_invariant (faultless_preserves Proceeds.covers) start faultless executed
  refine ⟨length_le_measure measure_falls faultless executed, progress awaits, fun idle => ?_⟩
  rw [Covers, idle] at covers
  exact covers

/-- More than one page, and the run that meets no fault ends with a row that it should have archived. -/
theorem incomplete_of_long (s : State I) (now : Int)
    (long : config.ARCHIVE_BATCH_SIZE < (s.transaction.rows.filter (eligible (cutoffAt config now))).length) :
    ¬ Completes config (cutoffAt config now) (begun config s now) := by
  rintro ⟨bound, completes⟩
  have start : Awaits (begun config s now) ∧
      Misses (cutoffAt config now) config.ARCHIVE_BATCH_SIZE (begun config s now) := ⟨trivial, rfl, long⟩
  obtain ⟨labels, t, faultless, executed, idle⟩ := exists_run_of_measure measure_falls
    (faultless_preserves Proceeds.misses) (fun inv (working : ¬_ = Worker.idle) => progress inv.1 working) start
  have missed := (run_invariant (faultless_preserves Proceeds.misses) start faultless executed).2
  rw [Misses, idle] at missed
  obtain ⟨tx, member, matching⟩ := missed
  rw [(completes labels t faultless executed).2.2 idle tx member] at matching
  cases matching

/-- Nothing that is old enough is left exactly when one page has all of it. -/
theorem completes_iff (s : State I) (now : Int) : Completes config (cutoffAt config now) (begun config s now) ↔
    (s.transaction.rows.filter (eligible (cutoffAt config now))).length ≤ config.ARCHIVE_BATCH_SIZE := by
  constructor
  · intro completes
    by_contra long
    exact incomplete_of_long s now (not_le.mp long) completes
  · exact completes_of_short s now

theorem Safe.run (safe : Safe table s) (executed : (archiver config).run s labels = some t) : Safe table t :=
  run_invariant (fun safe (_ : True) stepped => safe.step stepped) safe (fun _ _ => trivial) executed

theorem raw_xdr_archived_iff (config : Config) (s : State I) (now : Int)
    (begins : step config s (.archiveRawXdr now) = some started) :
    (∀ labels t, (archiver config).run s labels = some t → KeptAll s.transaction t) ∧
      (Completes config (cutoffAt config now) started ↔
        (s.transaction.rows.filter (eligible (cutoffAt config now))).length ≤ config.ARCHIVE_BATCH_SIZE) := by
  cases idle : s.worker with
  | reading _ _ _ | uploading _ _ _ _ _ | nullifying _ _ _ _ => simp [Archiver.step, idle] at begins
  | idle =>
    simp only [Archiver.step, idle, Option.some.injEq] at begins
    subst begins
    have safe : Safe s.transaction s := by
      refine ⟨List.forall₂_same.mpr fun tx _ => .inl rfl, ?_⟩
      rw [InProgress, idle]
      trivial
    exact ⟨fun labels t executed => (safe.run executed).kept, completes_iff s now⟩

/-- Rows of March 2024, a year before the run. -/
def old (id : String) (ledgerSequence : Int) : Transaction String :=
  ⟨id, "tx" ++ id, ledgerSequence, 1709251200000, none, "AAAA" ++ id⟩

def threeOld : State String where
  transaction := ⟨[old "a" 1, old "b" 2, old "c" 3], by decide⟩
  stored := []
  worker := .idle
  returned := []

theorem raw_xdr_archived_onePage : Completes ⟨90, 3⟩ (cutoffAt ⟨90, 3⟩ 1740787200000)
    (begun ⟨90, 3⟩ threeOld 1740787200000) :=
  (raw_xdr_archived_iff ⟨90, 3⟩ threeOld 1740787200000 rfl).2.mpr (by decide)

/-- With pages of two rows, the second page is to be the rows after "b". -/
theorem raw_xdr_left_behind : ∃ labels t, (∀ a ∈ labels, Faultless a) ∧
    (archiver ⟨90, 2⟩).run (begun ⟨90, 2⟩ threeOld 1740787200000) labels = some t ∧
    t.returned.map (fun r => (r.archived, r.errors)) = [(2, 0)] ∧
    ∃ tx ∈ t.transaction.rows, eligible (cutoffAt ⟨90, 2⟩ 1740787200000) tx = true := by
  refine ⟨[.findMany .done, .upload 0 .done, .upload 0 .done, .updateMany .done, .findMany .done], _, ?_, rfl, ?_, ?_⟩
  · simp [Faultless]
  · decide
  · decide

end Octraban.Archiver
