import Mathlib.Data.Finset.Sort

/-! repair.ts: sweeps over the ledgers that look for those without a row and those without content. -/
namespace Octraban.RepairSweeps

/-- REPAIR_CHUNK_SIZE and REPAIR_MAX_EMPTY_BATCH. -/
structure Settings where
  REPAIR_CHUNK : ℕ := 50
  MAX_EMPTY_BATCH : ℕ := 200

/-- The sequences of the ledgers, and `ledgerSequence` of the transactions and of the events. -/
structure Tables where
  ledger : Finset ℤ
  transactions : List ℤ
  events : List ℤ

/-- `processLedgerRange`: what it leaves, also where it throws. -/
abbrev Process := ℤ → ℤ → Tables → Tables

structure RepairSweepOptions where
  dryRun : Bool := false
  fromSeq : Option ℤ := none
  toSeq : Option ℤ := none

structure Gaps where
  hardGaps : ℕ
  softGaps : ℕ
  deriving DecidableEq

/-! ### Gap detection -/

/-- `generate_series` -/
def series (minSeq maxSeq : ℤ) : List ℤ := (List.range (maxSeq + 1 - minSeq).toNat).map fun i : ℕ => minSeq + i

def findMissingSequences (s : Tables) (minSeq maxSeq : ℤ) (limit : ℕ) : List ℤ :=
  ((series minSeq maxSeq).filter fun seq => seq ∉ s.ledger).take limit

def findEmptyLedgers (s : Tables) (limit : ℕ) : List ℤ :=
  ((s.ledger.filter fun seq => seq ∉ s.transactions ∧ seq ∉ s.events).sort (· ≤ ·)).take limit

/-! ### Repair -/

/-- The ranges of what follows a range that is still open. -/
def group (rangeStart prev : ℤ) : List ℤ → List (ℤ × ℤ)
  | [] => [(rangeStart, prev)]
  | seq :: rest => if seq = prev + 1 then group rangeStart seq rest else (rangeStart, prev) :: group seq seq rest

def ranges : List ℤ → List (ℤ × ℤ)
  | [] => []
  | seq :: rest => group seq seq rest

/-- Errors are caught, range by range. -/
def backfill (process : Process) (sequences : List ℤ) (s : Tables) : Tables :=
  (ranges sequences).foldl (fun s range => process range.1 range.2 s) s

def lowest (s : Tables) : Option ℤ := if nonempty : s.ledger.Nonempty then some (s.ledger.min' nonempty) else none

def highest (s : Tables) : Option ℤ := if nonempty : s.ledger.Nonempty then some (s.ledger.max' nonempty) else none

def runRepairSweep (settings : Settings) (process : Process) (opts : RepairSweepOptions) (s : Tables) : Tables × Gaps :=
  match opts.fromSeq.or (lowest s), opts.toSeq.or (highest s) with
  | some minSeq, some maxSeq =>
    let sweepMax := if opts.toSeq.isSome then maxSeq else min maxSeq (minSeq + settings.MAX_EMPTY_BATCH * 10)
    let missing := findMissingSequences s minSeq sweepMax settings.REPAIR_CHUNK
    let repaired := if opts.dryRun then s else backfill process missing s
    let empty := findEmptyLedgers repaired settings.REPAIR_CHUNK
    (if opts.dryRun then repaired else backfill process empty repaired, ⟨missing.length, empty.length⟩)
  | _, _ => (s, ⟨0, 0⟩)

/-- The tables after so many sweeps with the default options. -/
def sweeps (settings : Settings) (process : ℕ → Process) (s : Tables) : ℕ → Tables
  | 0 => s
  | n + 1 => (runRepairSweep settings (process n) {} (sweeps settings process s n)).1

/-- Every call creates the rows that it is asked for. -/
def Succeeds (process : Process) : Prop :=
  ∀ start stop s q, q ∈ (process start stop s).ledger ↔ q ∈ s.ledger ∨ (start ≤ q ∧ q ≤ stop)

variable {settings : Settings} {process : Process} {s t : Tables} {minSeq maxSeq m M q rangeStart prev : ℤ} {limit : ℕ}

/-! ### Gaps -/

theorem mem_series : q ∈ series minSeq maxSeq ↔ minSeq ≤ q ∧ q ≤ maxSeq := by
  simp only [series, List.mem_map, List.mem_range]
  constructor
  · rintro ⟨i, less, rfl⟩
    omega
  · intro between
    exact ⟨(q - minSeq).toNat, by omega, by omega⟩

theorem nodup_series : (series minSeq maxSeq).Nodup := by
  apply List.Nodup.map _ List.nodup_range
  intro i j same
  dsimp only at same
  omega

theorem mem_findMissing (member : q ∈ findMissingSequences s minSeq maxSeq limit) : minSeq ≤ q ∧ q ≤ maxSeq ∧ q ∉ s.ledger := by
  obtain ⟨listed, absent⟩ := List.mem_filter.mp (List.mem_of_mem_take member)
  obtain ⟨low, high⟩ := mem_series.mp listed
  exact ⟨low, high, of_decide_eq_true absent⟩

theorem mem_findEmpty (member : q ∈ findEmptyLedgers s limit) : q ∈ s.ledger := by
  have listed := (Finset.mem_sort _).mp (List.mem_of_mem_take member)
  exact (Finset.mem_filter.mp listed).1

/-! ### Ranges -/

theorem mem_group (sequences : List ℤ) (nonempty : rangeStart ≤ prev) :
    (∃ range ∈ group rangeStart prev sequences, range.1 ≤ q ∧ q ≤ range.2) ↔
      (rangeStart ≤ q ∧ q ≤ prev) ∨ q ∈ sequences := by
  induction sequences generalizing rangeStart prev with
  | nil => simp [group]
  | cons seq rest ih =>
    rw [group, List.mem_cons]
    split
    · rename_i next
      rw [ih (by omega)]
      constructor
      · rintro (between | later)
        · omega
        · exact .inr (.inr later)
      · rintro (between | rfl | later)
        · omega
        · omega
        · exact .inr later
    · rw [List.exists_mem_cons_iff, ih le_rfl]
      constructor
      · rintro (between | between | later)
        · exact .inl between
        · exact .inr (.inl (by omega))
        · exact .inr (.inr later)
      · rintro (between | rfl | later)
        · exact .inl between
        · exact .inr (.inl ⟨le_rfl, le_rfl⟩)
        · exact .inr (.inr later)

/-- The ranges hold the sequences and no others. -/
theorem mem_ranges (sequences : List ℤ) : (∃ range ∈ ranges sequences, range.1 ≤ q ∧ q ≤ range.2) ↔ q ∈ sequences := by
  cases sequences with
  | nil => simp [ranges]
  | cons seq rest =>
    rw [ranges, mem_group rest le_rfl, List.mem_cons]
    have single : (seq ≤ q ∧ q ≤ seq) ↔ q = seq := by omega
    rw [single]

theorem mem_foldl_process (succeeds : Succeeds process) (list : List (ℤ × ℤ)) :
    q ∈ (list.foldl (fun s range => process range.1 range.2 s) s).ledger ↔
      q ∈ s.ledger ∨ ∃ range ∈ list, range.1 ≤ q ∧ q ≤ range.2 := by
  induction list generalizing s with
  | nil => simp
  | cons range list ih =>
    rw [List.foldl_cons, ih, succeeds, List.exists_mem_cons_iff, or_assoc]

theorem mem_backfill (succeeds : Succeeds process) (sequences : List ℤ) :
    q ∈ (backfill process sequences s).ledger ↔ q ∈ s.ledger ∨ q ∈ sequences := by
  rw [backfill, mem_foldl_process succeeds, mem_ranges]

/-! ### One sweep -/

/-- The first and the last ledger. -/
def Bounds (m M : ℤ) (s : Tables) : Prop := lowest s = some m ∧ highest s = some M

theorem lowest_eq_some_iff : lowest s = some m ↔ IsLeast (s.ledger : Set ℤ) m := by
  unfold lowest
  split
  · rename_i nonempty
    rw [Option.some.injEq]
    constructor
    · rintro rfl
      exact Finset.isLeast_min' s.ledger nonempty
    · exact fun least => (Finset.isLeast_min' s.ledger nonempty).unique least
  · rename_i empty
    exact iff_of_false (by simp) fun least => empty ⟨m, least.1⟩

theorem highest_eq_some_iff : highest s = some M ↔ IsGreatest (s.ledger : Set ℤ) M := by
  unfold highest
  split
  · rename_i nonempty
    rw [Option.some.injEq]
    constructor
    · rintro rfl
      exact Finset.isGreatest_max' s.ledger nonempty
    · exact fun greatest => (Finset.isGreatest_max' s.ledger nonempty).unique greatest
  · rename_i empty
    exact iff_of_false (by simp) fun greatest => empty ⟨M, greatest.1⟩

/-- The end of the window of a sweep with the default options. -/
def windowEnd (settings : Settings) (m M : ℤ) : ℤ := min M (m + settings.MAX_EMPTY_BATCH * 10)

/-- A sweep creates the first missing ledgers of its window; looking for those without content creates none. -/
theorem mem_sweep (succeeds : Succeeds process) (bounds : Bounds m M s) : q ∈ (runRepairSweep settings process {} s).1.ledger ↔
    q ∈ s.ledger ∨ q ∈ findMissingSequences s m (windowEnd settings m M) settings.REPAIR_CHUNK := by
  simp only [runRepairSweep, bounds.1, bounds.2, Option.none_or, Option.isSome_none, Bool.false_eq_true, if_false]
  rw [mem_backfill succeeds, or_iff_left_of_imp mem_findEmpty, mem_backfill succeeds]
  rfl

theorem bounds_sweep (succeeds : Succeeds process) (bounds : Bounds m M s) :
    Bounds m M (runRepairSweep settings process {} s).1 := by
  have least := lowest_eq_some_iff.mp bounds.1
  have greatest := highest_eq_some_iff.mp bounds.2
  have within (q : ℤ) (member : q ∈ (runRepairSweep settings process {} s).1.ledger) : m ≤ q ∧ q ≤ M := by
    rcases (mem_sweep succeeds bounds).mp member with old | created
    · exact ⟨least.2 old, greatest.2 old⟩
    · obtain ⟨low, high, -⟩ := mem_findMissing created
      exact ⟨low, high.trans (min_le_left _ _)⟩
  have kept {q : ℤ} (member : q ∈ s.ledger) : q ∈ (runRepairSweep settings process {} s).1.ledger :=
    (mem_sweep succeeds bounds).mpr (.inl member)
  constructor
  · exact lowest_eq_some_iff.mpr ⟨kept least.1, fun q member => (within q member).1⟩
  · exact highest_eq_some_iff.mpr ⟨kept greatest.1, fun q member => (within q member).2⟩

/-- Beyond the window nothing is created. -/
theorem mem_sweep_iff (succeeds : Succeeds process) (bounds : Bounds m M s) (beyond : windowEnd settings m M < q) :
    q ∈ (runRepairSweep settings process {} s).1.ledger ↔ q ∈ s.ledger := by
  rw [mem_sweep succeeds bounds, or_iff_left]
  intro created
  exact absurd (mem_findMissing created).2.1 (not_le.mpr beyond)

/-- How many ledgers of the window are missing. -/
def remaining (settings : Settings) (m M : ℤ) (s : Tables) : ℕ :=
  ((series m (windowEnd settings m M)).filter fun seq => seq ∉ s.ledger).length

theorem filter_notMem_take {A : Type*} [DecidableEq A] {list : List A} (distinct : list.Nodup) (n : ℕ) :
    (list.filter fun a => a ∉ list.take n) = list.drop n := by
  have taken : ((list.take n).filter fun a => a ∉ list.take n) = [] := by simp
  have left : ((list.drop n).filter fun a => a ∉ list.take n) = list.drop n := by
    apply List.filter_eq_self.mpr
    intro a later
    have apart := List.disjoint_take_drop distinct (le_refl n)
    exact decide_eq_true fun earlier => apart earlier later
  calc (list.filter fun a => a ∉ list.take n)
      = (list.take n ++ list.drop n).filter fun a => a ∉ list.take n := by rw [List.take_append_drop]
    _ = list.drop n := by rw [List.filter_append, taken, left, List.nil_append]

theorem remaining_sweep (succeeds : Succeeds process) (bounds : Bounds m M s) :
    remaining settings m M (runRepairSweep settings process {} s).1 = remaining settings m M s - settings.REPAIR_CHUNK := by
  have left : ((series m (windowEnd settings m M)).filter fun seq => seq ∉ (runRepairSweep settings process {} s).1.ledger) =
      ((series m (windowEnd settings m M)).filter fun seq => seq ∉ s.ledger).drop settings.REPAIR_CHUNK := by
    rw [← filter_notMem_take (nodup_series.filter _), List.filter_filter]
    refine List.filter_congr fun q _ => ?_
    rw [Bool.eq_iff_iff, Bool.and_eq_true, decide_eq_true_eq, decide_eq_true_eq, decide_eq_true_eq, mem_sweep succeeds bounds,
      not_or]
    exact and_comm
  rw [remaining, left, List.length_drop, remaining]

/-! ### All sweeps -/

section
variable {processes : ℕ → Process}

theorem bounds_sweeps (succeed : ∀ n, Succeeds (processes n)) (bounds : Bounds m M s) (n : ℕ) :
    Bounds m M (sweeps settings processes s n) := by
  induction n with
  | zero => exact bounds
  | succ n ih => exact bounds_sweep (succeed n) ih

theorem mem_sweeps_iff (succeed : ∀ n, Succeeds (processes n)) (bounds : Bounds m M s)
    (beyond : windowEnd settings m M < q) (n : ℕ) : q ∈ (sweeps settings processes s n).ledger ↔ q ∈ s.ledger := by
  induction n with
  | zero => rfl
  | succ n ih => rw [sweeps, mem_sweep_iff (succeed n) (bounds_sweeps succeed bounds n) beyond, ih]

/-- Each sweep creates as many as it may, until nothing is missing in the window. -/
theorem remaining_sweeps (settings : Settings) (succeed : ∀ n, Succeeds (processes n)) (bounds : Bounds m M s) (n : ℕ) :
    remaining settings m M (sweeps settings processes s n) = remaining settings m M s - n * settings.REPAIR_CHUNK := by
  induction n with
  | zero => rw [Nat.zero_mul, Nat.sub_zero, sweeps]
  | succ n ih =>
    rw [sweeps, remaining_sweep (succeed n) (bounds_sweeps succeed bounds n), ih, Nat.succ_mul]
    omega

theorem mem_ledger_of_mem_sweeps (succeed : ∀ n, Succeeds (processes n)) (bounds : Bounds m M s) (n : ℕ)
    (complete : ∀ q, m ≤ q → q ≤ M → q ∈ (sweeps settings processes s n).ledger)
    (beyond : m + settings.MAX_EMPTY_BATCH * 10 < q) (inside : q ≤ M) : q ∈ s.ledger := by
  have outside : windowEnd settings m M < q := (min_le_right _ _).trans_lt beyond
  exact (mem_sweeps_iff succeed bounds outside n).mp (complete q (by omega) inside)

/-- Sweeps complete the ledgers exactly when none is missing beyond the window that starts at the first one. -/
theorem sweeps_complete_iff (settings : Settings) (processes : ℕ → Process) (s : Tables) (m M : ℤ)
    (some_chunk : 0 < settings.REPAIR_CHUNK) (succeed : ∀ n, Succeeds (processes n)) (bounds : Bounds m M s) :
    (∃ n, ∀ q, m ≤ q → q ≤ M → q ∈ (sweeps settings processes s n).ledger) ↔
      ∀ q, m + settings.MAX_EMPTY_BATCH * 10 < q → q ≤ M → q ∈ s.ledger := by
  constructor
  · rintro ⟨n, complete⟩ q beyond inside
    exact mem_ledger_of_mem_sweeps succeed bounds n complete beyond inside
  · intro known
    refine ⟨remaining settings m M s, fun q low high => ?_⟩
    by_cases beyond : windowEnd settings m M < q
    · rw [mem_sweeps_iff succeed bounds beyond]
      refine known q ?_ high
      rw [windowEnd] at beyond
      omega
    · have none_left := remaining_sweeps settings succeed bounds (remaining settings m M s)
      rw [Nat.sub_eq_zero_of_le (Nat.le_mul_of_pos_right _ some_chunk), remaining, List.length_eq_zero_iff,
        List.filter_eq_nil_iff] at none_left
      have present := none_left q (mem_series.mpr ⟨low, not_lt.mp beyond⟩)
      by_contra absent
      exact present (decide_eq_true absent)
end

/-- Calls that create the ledgers and nothing else. -/
def creating : Process := fun start stop s => { s with ledger := s.ledger ∪ (series start stop).toFinset }

theorem succeeds_creating : Succeeds creating := by
  intro start stop s q
  rw [creating, Finset.mem_union, List.mem_toFinset, mem_series]

theorem complete_near : ∃ n, ∀ q, 1 ≤ q → q ≤ 2001 → q ∈ (sweeps {} (fun _ => creating) ⟨{1, 2001}, [], []⟩ n).ledger :=
  (sweeps_complete_iff {} (fun _ => creating) ⟨{1, 2001}, [], []⟩ 1 2001 (by decide) (fun _ => succeeds_creating)
    ⟨by decide, by decide⟩).mpr fun q beyond inside => absurd inside (by simp at beyond; omega)

/-- 2002 is one beyond the window of each sweep. -/
theorem incomplete_far : (∀ n : ℕ, Succeeds ((fun _ => creating : ℕ → Process) n)) ∧ Bounds 1 2003 ⟨{1, 2003}, [], []⟩ ∧
    ¬ ∃ n, ∀ q, 1 ≤ q → q ≤ 2003 → q ∈ (sweeps {} (fun _ => creating) ⟨{1, 2003}, [], []⟩ n).ledger := by
  have bounds : Bounds 1 2003 ⟨{1, 2003}, [], []⟩ := ⟨by decide, by decide⟩
  refine ⟨fun _ => succeeds_creating, bounds, ?_⟩
  rintro ⟨n, complete⟩
  have known := mem_ledger_of_mem_sweeps (q := 2002) (fun _ => succeeds_creating) bounds n complete (by decide) (by decide)
  exact absurd known (by decide)

end Octraban.RepairSweeps
