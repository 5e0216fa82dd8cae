import Mathlib.Logic.Basic

/-! Labelled systems whose step is a partial function of the label: a label
carries every choice of the environment, so a run is executable and its
failures are visible. Guards restrict the steps a run may take. -/
namespace Transition

structure System (S A : Type*) where
  initial : S → Prop
  step : S → A → Option S

namespace System
variable {S A : Type*} (M : System S A)

/-- Executes a list of labels, stopping at the first one that is not enabled. -/
def run (s : S) : List A → Option S
  | [] => some s
  | a :: rest => (M.step s a).bind fun t => run t rest

/-- States reached from an initial one by steps that all meet `guard`. -/
inductive ReachableWhen (guard : S → A → Prop) : S → Prop where
  | initial : M.initial s → ReachableWhen guard s
  | step : ReachableWhen guard s → guard s a → M.step s a = some t → ReachableWhen guard t

/-- States reached by any run. -/
abbrev Reachable : S → Prop := M.ReachableWhen fun _ _ => True

/-- `P` holds in every state that executing `labels` from `s` visits. -/
def Along (P : S → Prop) (s : S) : List A → Prop
  | [] => P s
  | a :: rest => P s ∧ ∀ t, M.step s a = some t → Along P t rest

/-- Every step that executing `labels` from `s` takes meets `guard`. -/
def Guarded (guard : S → A → Prop) (s : S) : List A → Prop
  | [] => True
  | a :: rest => ∀ t, M.step s a = some t → guard s a ∧ Guarded guard t rest

variable {M} {guard : S → A → Prop} {Inv P : S → Prop}

theorem ReachableWhen.invariant (initial : ∀ {s}, M.initial s → Inv s)
    (preserves : ∀ {s a t}, Inv s → guard s a → M.step s a = some t → Inv t)
    (reached : M.ReachableWhen guard s) : Inv s := by
  induction reached with
  | initial start => exact initial start
  | step _ allowed stepped ih => exact preserves ih allowed stepped

theorem ReachableWhen.of_run (reached : M.Reachable s) (executed : M.run s labels = some t) :
    M.Reachable t := by
  induction labels generalizing s with
  | nil =>
    cases executed
    exact reached
  | cons a rest ih =>
    simp only [run, Option.bind_eq_some_iff] at executed
    obtain ⟨next, stepped, executed⟩ := executed
    exact ih (reached.step trivial stepped) executed

theorem reachable_of_run (M : System S A) (s : S) (labels : List A) (start : M.initial s)
    (executed : M.run s labels = some t) : M.Reachable t :=
  (ReachableWhen.initial start).of_run executed

theorem ReachableWhen.of_guarded_run (reached : M.ReachableWhen guard s)
    (guarded : M.Guarded guard s labels) (executed : M.run s labels = some t) :
    M.ReachableWhen guard t := by
  induction labels generalizing s with
  | nil =>
    cases executed
    exact reached
  | cons a rest ih =>
    simp only [run, Option.bind_eq_some_iff] at executed
    obtain ⟨next, stepped, executed⟩ := executed
    obtain ⟨allowed, later⟩ := guarded next stepped
    exact ih (reached.step allowed stepped) later executed

theorem reachableWhen_of_run (M : System S A) (s : S) (labels : List A) (start : M.initial s)
    (guarded : M.Guarded guard s labels) (executed : M.run s labels = some t) :
    M.ReachableWhen guard t :=
  (ReachableWhen.initial start).of_guarded_run guarded executed

/-- Executes `labels` and evaluates a decidable guard at every step taken. -/
def guardedBy (M : System S A) (check : S → A → Bool) (s : S) : List A → Bool
  | [] => true
  | a :: rest =>
    match M.step s a with
    | none => true
    | some t => check s a && guardedBy M check t rest

theorem guarded_of_guardedBy (check : S → A → Bool) (sound : ∀ s a, check s a = true → guard s a)
    (checked : M.guardedBy check s labels = true) : M.Guarded guard s labels := by
  induction labels generalizing s with
  | nil => trivial
  | cons a rest ih =>
    intro t stepped
    simp only [guardedBy, stepped, Bool.and_eq_true] at checked
    exact ⟨sound s a checked.1, ih checked.2⟩

/-- A guard that carries an invariant carries what follows from it. -/
theorem along_of_guarded (Inv : S → Prop) (sound : ∀ {s}, Inv s → P s)
    (preserves : ∀ {s a t}, Inv s → guard s a → M.step s a = some t → Inv t)
    (start : Inv s) (guarded : M.Guarded guard s labels) : M.Along P s labels := by
  induction labels generalizing s with
  | nil => exact sound start
  | cons a rest ih =>
    refine ⟨sound start, fun t stepped => ?_⟩
    obtain ⟨allowed, later⟩ := guarded t stepped
    exact ih (preserves start allowed stepped) later

/-- Exactness of a guard: when it carries the invariant, and every step into a
state with `P` meets it, a run keeps `P` throughout iff all its steps meet it. -/
theorem along_iff_guarded (sound : ∀ {s}, Inv s → P s)
    (preserves : ∀ {s a t}, Inv s → guard s a → M.step s a = some t → Inv t)
    (exact : ∀ {s a t}, Inv s → M.step s a = some t → P t → guard s a)
    (start : Inv s) (labels : List A) : M.Along P s labels ↔ M.Guarded guard s labels := by
  refine ⟨fun along => ?_, along_of_guarded Inv sound preserves start⟩
  induction labels generalizing s with
  | nil => trivial
  | cons a rest ih =>
    intro t stepped
    have later := along.2 t stepped
    have allowed : guard s a := by
      refine exact start stepped ?_
      cases rest with
      | nil => exact later
      | cons => exact later.1
    exact ⟨allowed, ih (preserves start allowed stepped) later⟩

section Measured
variable {allowed : A → Prop} {measure : S → Nat}

theorem run_invariant (preserves : ∀ {s a t}, Inv s → allowed a → M.step s a = some t → Inv t)
    (start : Inv s) (all : ∀ a ∈ labels, allowed a) (executed : M.run s labels = some t) : Inv t := by
  induction labels generalizing s with
  | nil =>
    cases executed
    exact start
  | cons a rest ih =>
    simp only [run, Option.bind_eq_some_iff] at executed
    obtain ⟨next, stepped, executed⟩ := executed
    obtain ⟨here, later⟩ := List.forall_mem_cons.mp all
    exact ih (preserves start here stepped) later executed

/-- A run is no longer than a measure that falls with each of its steps. -/
theorem length_le_measure (falls : ∀ {s a t}, allowed a → M.step s a = some t → measure t < measure s)
    (all : ∀ a ∈ labels, allowed a) (executed : M.run s labels = some t) : labels.length ≤ measure s := by
  induction labels generalizing s with
  | nil => exact Nat.zero_le _
  | cons a rest ih =>
    simp only [run, Option.bind_eq_some_iff] at executed
    obtain ⟨next, stepped, executed⟩ := executed
    obtain ⟨here, later⟩ := List.forall_mem_cons.mp all
    exact Nat.lt_of_le_of_lt (ih later executed) (falls here stepped)

/-- Where a measure falls and some step is enabled until the end, some run gets there. -/
theorem exists_run_of_measure {ended : S → Prop}
    (falls : ∀ {s a t}, allowed a → M.step s a = some t → measure t < measure s)
    (preserves : ∀ {s a t}, Inv s → allowed a → M.step s a = some t → Inv t)
    (progress : ∀ {s}, Inv s → ¬ended s → ∃ a, allowed a ∧ ∃ t, M.step s a = some t) (start : Inv s) :
    ∃ labels t, (∀ a ∈ labels, allowed a) ∧ M.run s labels = some t ∧ ended t := by
  by_cases final : ended s
  · exact ⟨[], s, fun _ impossible => (List.not_mem_nil impossible).elim, rfl, final⟩
  · obtain ⟨a, here, next, stepped⟩ := progress start final
    have less := falls here stepped
    obtain ⟨labels, t, later, executed, final⟩ :=
      exists_run_of_measure falls preserves progress (preserves start here stepped)
    refine ⟨a :: labels, t, List.forall_mem_cons.mpr ⟨here, later⟩, ?_, final⟩
    simpa only [run, stepped, Option.bind_some] using executed
termination_by measure s

end Measured

end System

/-- A list of tasks of which one goes on: what holds of all, and of its next state, still does. -/
theorem forall_mem_set {P : α → Prop} {tasks : List α} {next : α} (k : Nat)
    (all : ∀ task ∈ tasks, P task) (new : P next) : ∀ task ∈ tasks.set k next, P task := by
  intro task member
  rcases List.mem_or_eq_of_mem_set member with old | rfl
  · exact all task old
  · exact new

/-- Of the tasks after one has gone on, that one is new and the others are where they were. -/
theorem mem_set_cases {tasks : List α} {next task : α} (member : task ∈ tasks.set k next) :
    task = next ∨ ∃ j, j ≠ k ∧ tasks[j]? = some task := by
  obtain ⟨j, at_⟩ := List.mem_iff_getElem?.mp member
  by_cases same : j = k
  · subst same
    obtain ⟨inside, at_⟩ := List.getElem?_eq_some_iff.mp at_
    rw [List.getElem_set_self] at at_
    exact .inl at_.symm
  · rw [List.getElem?_set_ne (Ne.symm same)] at at_
    exact .inr ⟨j, same, at_⟩

/-- A relation between any two tasks is kept when the next state of the one has it too. -/
theorem pairwise_set {R : α → α → Prop} {tasks : List α} {old next : α} (pairwise : tasks.Pairwise R)
    (found : tasks[k]? = some old) (left : ∀ task ∈ tasks, R task old → R task next)
    (right : ∀ task ∈ tasks, R old task → R next task) : (tasks.set k next).Pairwise R := by
  induction tasks generalizing k with
  | nil => exact .nil
  | cons first rest ih =>
    obtain ⟨before, rest⟩ := List.pairwise_cons.mp pairwise
    cases k with
    | zero =>
      cases found
      exact .cons (fun task member => right task (List.mem_cons_of_mem _ member) (before task member)) rest
    | succ k =>
      have inner := ih rest found (fun task member => left task (List.mem_cons_of_mem _ member))
        (fun task member => right task (List.mem_cons_of_mem _ member))
      refine .cons (fun task member => ?_) inner
      rcases List.mem_or_eq_of_mem_set member with present | rfl
      · exact before task present
      · exact left first List.mem_cons_self (before old (List.mem_of_getElem? found))

end Transition
