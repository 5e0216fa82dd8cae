import Octraban.Daemon.Events
import Mathlib.Data.List.Sort

/-! reorgWorker.js: stored ledger hashes are compared with the network's, newest
first, and the first mismatch is taken for the fork. -/
namespace Octraban.ReorgWorker
open Daemon

structure LedgerHash where
  ledger : Int
  hash : String
  deriving DecidableEq, Repr

/-- The `ledger_hashes` table with its primary key. -/
structure LedgerHashes where
  rows : List LedgerHash
  primaryKey : (rows.map LedgerHash.ledger).Nodup

/-- What `rpc.getLedger(ledger)` does: it throws at once (no such method), its
promise is rejected, or it resolves to an object with or without a hash. -/
inductive Answer where
  | throws
  | rejects
  | info (hash : Option String)
  deriving DecidableEq, Repr

abbrev Network := Int → Answer

/-- The hash compared with the stored one. An empty string is falsy as well. -/
def networkHash : Answer → Option String
  | .throws | .rejects | .info none => none
  | .info (some hash) => if hash = "" then none else some hash

structure State where
  events : EventsTable
  ledgerHashes : LedgerHashes
  cursor : Int

/-- ORDER BY ledger DESC LIMIT $1. -/
def getRecentLedgerHashes (t : LedgerHashes) (limit : Nat) : List LedgerHash :=
  (t.rows.insertionSort fun a b => b.ledger ≤ a.ledger).take limit

def firstMismatch (rpc : Network) : List LedgerHash → Option Int
  | [] => none
  | row :: rest =>
    match networkHash (rpc row.ledger) with
    | none => firstMismatch rpc rest
    | some hash => if hash ≠ row.hash then some row.ledger else firstMismatch rpc rest

def checkForReorg (rpc : Network) (t : LedgerHashes) : Option Int :=
  firstMismatch rpc (getRecentLedgerHashes t 20)

def LedgerHashes.deleteFrom (t : LedgerHashes) (forkLedger : Int) : LedgerHashes :=
  ⟨t.rows.filter fun row => row.ledger < forkLedger,
    t.primaryKey.sublist (List.filter_sublist.map LedgerHash.ledger)⟩

def rollback (s : State) (forkLedger : Int) : State :=
  { s with
    events := s.events.deleteFrom forkLedger
    ledgerHashes := s.ledgerHashes.deleteFrom forkLedger }

/-- One round of the worker's loop: check, roll back, rewind the cursor. -/
def round (rpc : Network) (s : State) : State :=
  match checkForReorg rpc s.ledgerHashes with
  | none => s
  | some forkLedger => { rollback s forkLedger with cursor := forkLedger }

def Differs (rpc : Network) (row : LedgerHash) : Prop :=
  ∃ hash, networkHash (rpc row.ledger) = some hash ∧ hash ≠ row.hash

/-- Stored and reported hashes agree below `f` and differ from `f` on, and the
network reports a hash for at least one stored ledger from `f` on. -/
structure ForkAt (rpc : Network) (t : LedgerHashes) (f : Int) : Prop where
  below : ∀ row ∈ t.rows, row.ledger < f → ∀ hash, networkHash (rpc row.ledger) = some hash →
    hash = row.hash
  above : ∀ row ∈ t.rows, f ≤ row.ledger → ∀ hash, networkHash (rpc row.ledger) = some hash →
    hash ≠ row.hash
  reported : ∃ row ∈ t.rows, f ≤ row.ledger ∧ networkHash (rpc row.ledger) ≠ none

/-- `m` is the lowest ledger of the window whose stored hash differs. -/
def LowestMismatch (rpc : Network) (t : LedgerHashes) (m : Int) : Prop :=
  (∃ row ∈ getRecentLedgerHashes t 20, row.ledger = m ∧ Differs rpc row) ∧
    ∀ row ∈ getRecentLedgerHashes t 20, Differs rpc row → m ≤ row.ledger

/-- The round finds the fork at `f`: the check returns the lowest mismatch of the
window, and nothing from `f` on is left once the cursor stands at `f`. -/
def FindsFork (rpc : Network) (s : State) (f : Int) : Prop :=
  (∃ m, checkForReorg rpc s.ledgerHashes = some m ∧ LowestMismatch rpc s.ledgerHashes m) ∧
    (∀ e ∈ (round rpc s).events.events, e.ledger < f) ∧
    (∀ row ∈ (round rpc s).ledgerHashes.rows, row.ledger < f) ∧ (round rpc s).cursor = f

/-- Among the newest 20 stored ledgers the fork height itself gets a hash from
the network, and no ledger above it does. -/
def ForkOnTop (rpc : Network) (t : LedgerHashes) (f : Int) : Prop :=
  ∃ row ∈ getRecentLedgerHashes t 20, row.ledger = f ∧ networkHash (rpc f) ≠ none ∧
    ∀ newer ∈ getRecentLedgerHashes t 20, f < newer.ledger → networkHash (rpc newer.ledger) = none

theorem window_sorted (t : LedgerHashes) (limit : Nat) :
    (getRecentLedgerHashes t limit).Pairwise fun a b => b.ledger < a.ledger := by
  have ordered := List.pairwise_insertionSort (fun a b : LedgerHash => b.ledger ≤ a.ledger) t.rows
  have distinct : (t.rows.insertionSort fun a b => b.ledger ≤ a.ledger).Pairwise
      fun a b => a.ledger ≠ b.ledger :=
    List.pairwise_map.mp (((List.perm_insertionSort _ t.rows).map _).nodup_iff.mpr t.primaryKey)
  refine ((ordered.and distinct).imp fun both => ?_).sublist (List.take_sublist limit _)
  exact lt_of_le_of_ne both.1 both.2.symm

theorem window_stored {t : LedgerHashes} {limit : Nat} {row : LedgerHash}
    (member : row ∈ getRecentLedgerHashes t limit) : row ∈ t.rows :=
  (List.mem_insertionSort _).mp (List.mem_of_mem_take member)

theorem firstMismatch_cons_of_differs {rpc : Network} {row : LedgerHash} (rest : List LedgerHash)
    (differs : Differs rpc row) : firstMismatch rpc (row :: rest) = some row.ledger := by
  obtain ⟨hash, reported, other⟩ := differs
  simp only [firstMismatch, reported, if_pos other]

theorem firstMismatch_cons_of_agrees {rpc : Network} {row : LedgerHash} (rest : List LedgerHash)
    (agrees : ¬ Differs rpc row) : firstMismatch rpc (row :: rest) = firstMismatch rpc rest := by
  simp only [firstMismatch]
  cases reported : networkHash (rpc row.ledger) with
  | none => rfl
  | some hash =>
    refine if_neg fun other => agrees ⟨hash, reported, other⟩

/-- The scan stops at the first differing row it meets. -/
theorem firstMismatch_eq_some_iff (rpc : Network) (rows : List LedgerHash) (m : Int) :
    firstMismatch rpc rows = some m ↔ ∃ newer row older, rows = newer ++ row :: older ∧
      row.ledger = m ∧ Differs rpc row ∧ ∀ other ∈ newer, ¬ Differs rpc other := by
  induction rows with
  | nil => simp [firstMismatch]
  | cons head rest ih =>
    by_cases differs : Differs rpc head
    · rw [firstMismatch_cons_of_differs rest differs, Option.some.injEq]
      constructor
      · intro same
        exact ⟨[], head, rest, rfl, same, differs, by simp⟩
      · rintro ⟨newer, row, older, split, same, -, agree⟩
        cases newer with
        | nil =>
          cases split
          exact same
        | cons first newer =>
          cases split
          exact absurd differs (agree head (by simp))
    · rw [firstMismatch_cons_of_agrees rest differs, ih]
      constructor
      · rintro ⟨newer, row, older, rfl, same, found, agree⟩
        exact ⟨head :: newer, row, older, rfl, same, found,
          List.forall_mem_cons.mpr ⟨differs, agree⟩⟩
      · rintro ⟨newer, row, older, split, same, found, agree⟩
        cases newer with
        | nil =>
          cases split
          exact absurd found differs
        | cons first newer =>
          cases split
          exact ⟨newer, row, older, rfl, same, found, fun other member =>
            agree other (List.mem_cons_of_mem _ member)⟩

/-- In the window, older than a row means a lower ledger, newer a higher one. -/
theorem window_split {t : LedgerHashes} {newer older : List LedgerHash} {row : LedgerHash}
    (split : getRecentLedgerHashes t 20 = newer ++ row :: older) :
    ∀ other ∈ getRecentLedgerHashes t 20, row.ledger < other.ledger ↔ other ∈ newer := by
  have sorted := window_sorted t 20
  rw [split, List.pairwise_append, List.pairwise_cons] at sorted
  obtain ⟨-, ⟨lower, -⟩, higher⟩ := sorted
  intro other member
  rw [split, List.mem_append, List.mem_cons] at member
  constructor
  · intro above
    rcases member with member | rfl | member
    · exact member
    · exact absurd above (lt_irrefl _)
    · exact absurd (lower other member) above.asymm
  · exact fun member => higher other member row List.mem_cons_self

theorem ForkAt.differs_iff {rpc : Network} {t : LedgerHashes} {f : Int} {row : LedgerHash}
    (fork : ForkAt rpc t f) (stored : row ∈ t.rows) :
    Differs rpc row ↔ f ≤ row.ledger ∧ networkHash (rpc row.ledger) ≠ none := by
  constructor
  · rintro ⟨hash, reported, other⟩
    refine ⟨not_lt.mp fun below => other (fork.below row stored below hash reported), ?_⟩
    rw [reported]
    simp
  · rintro ⟨above, reported⟩
    obtain ⟨hash, reported⟩ := Option.ne_none_iff_exists'.mp reported
    exact ⟨hash, reported, fork.above row stored above hash reported⟩

theorem checkForReorg_eq_fork_iff {rpc : Network} {t : LedgerHashes} {f : Int}
    (fork : ForkAt rpc t f) : checkForReorg rpc t = some f ↔ ForkOnTop rpc t f := by
  rw [checkForReorg, firstMismatch_eq_some_iff]
  constructor
  · rintro ⟨newer, row, older, split, rfl, differs, agree⟩
    have member : row ∈ getRecentLedgerHashes t 20 := by rw [split]; simp
    refine ⟨row, member, rfl, ((fork.differs_iff (window_stored member)).mp differs).2, ?_⟩
    intro other recent above
    by_contra reported
    exact agree other ((window_split split other recent).mp above)
      ((fork.differs_iff (window_stored recent)).mpr ⟨above.le, reported⟩)
  · rintro ⟨row, member, rfl, reported, silent⟩
    obtain ⟨newer, older, split⟩ := List.append_of_mem member
    refine ⟨newer, row, older, split, rfl,
      (fork.differs_iff (window_stored member)).mpr ⟨le_rfl, reported⟩, ?_⟩
    intro other prior differs
    have recent : other ∈ getRecentLedgerHashes t 20 := by rw [split]; simp [prior]
    exact ((fork.differs_iff (window_stored recent)).mp differs).2
      (silent other recent ((window_split split other recent).mpr prior))

/-- Newest first returns the highest mismatch, so the fork is found exactly when
it is the highest mismatch too. -/
theorem findsFork_iff {rpc : Network} {s : State} {f : Int} (fork : ForkAt rpc s.ledgerHashes f) :
    FindsFork rpc s f ↔ ForkOnTop rpc s.ledgerHashes f := by
  rw [← checkForReorg_eq_fork_iff fork]
  constructor
  · rintro ⟨⟨m, found, -⟩, -, -, rewound⟩
    simp only [round, found] at rewound
    exact found.trans (congrArg some rewound)
  · intro found
    refine ⟨⟨f, found, ?_, ?_⟩, ?_, ?_, ?_⟩
    · obtain ⟨newer, row, older, split, same, differs, -⟩ := (firstMismatch_eq_some_iff _ _ _).mp found
      exact ⟨row, by rw [split]; simp, same, differs⟩
    · exact fun row recent differs => ((fork.differs_iff (window_stored recent)).mp differs).1
    · simp only [round, found, rollback, EventsTable.events, EventsTable.deleteFrom]
      intro e member
      obtain ⟨row, kept, rfl⟩ := List.mem_map.mp member
      simpa using (List.mem_filter.mp kept).2
    · simp only [round, found, rollback, LedgerHashes.deleteFrom]
      intro row kept
      simpa using (List.mem_filter.mp kept).2
    · simp only [round, found]

/-- Ledgers 10 and 11 are stored, no event yet, and the cursor stands at 12. -/
def twoLedgers : State := ⟨.empty, ⟨[⟨10, "a"⟩, ⟨11, "b"⟩], by decide⟩, 12⟩

/-- The network replaced every ledger from `f` on. -/
def replacedFrom (f : Int) : Network := fun ledger =>
  .info (some (if ledger < f then if ledger = 10 then "a" else "b" else "c"))

theorem replacedFrom_forkAt (f : Int) (stored : f ≤ 11) :
    ForkAt (replacedFrom f) twoLedgers.ledgerHashes f := by
  refine ⟨?_, ?_, ⟨⟨11, "b"⟩, by decide, stored, ?_⟩⟩
  · intro row member below hash reported
    simp only [twoLedgers, List.mem_cons, List.not_mem_nil, or_false] at member
    rcases member with rfl | rfl <;> simp_all [replacedFrom, networkHash]
  · intro row member above hash reported
    simp only [twoLedgers, List.mem_cons, List.not_mem_nil, or_false] at member
    rcases member with rfl | rfl <;>
      simp only [replacedFrom, networkHash, if_neg (not_lt.mpr above)] at reported <;>
      cases reported <;> decide
  · simp [replacedFrom, networkHash]
    split <;> simp

theorem tip_fork_found : FindsFork (replacedFrom 11) twoLedgers 11 :=
  (findsFork_iff (replacedFrom_forkAt 11 le_rfl)).mpr
    ⟨⟨11, "b"⟩, by decide, rfl, by decide, by decide⟩

theorem deeper_fork_missed :
    ¬ ∀ rpc s f, ForkAt rpc s.ledgerHashes f → FindsFork rpc s f := by
  intro claim
  obtain ⟨-, -, -, rewound⟩ := claim _ _ 10 (replacedFrom_forkAt 10 (by decide))
  exact absurd rewound (by decide)

end Octraban.ReorgWorker
