import Octraban.Core.JavaScript
import Octraban.Core.Transition
import Octraban.Core.Upsert

/-! settlement-compactor.ts: settlement events of a contract are summed up by windows of
ledgers. A run reads a batch of events once and then commits one window after the other,
while events arrive and other runs go on. -/
namespace Octraban.Compactor
open JavaScript

/-- A field of decoded JSON; what is absent counts as null. -/
inductive Value where
  | null
  | text (text : String)
  | number (number : ℚ)
  | other
  deriving DecidableEq

abbrev Decoded := List (String × Value)

def Decoded.get (d : Decoded) (field : String) : Value := (d.lookup field).getD .null

structure Event where
  id : String
  eventType : String
  contractAddress : String
  ledgerSequence : Nat
  ledgerCloseTime : Int
  decoded : Option Decoded
  deriving DecidableEq

structure Key where
  contractAddress : String
  windowKey : Nat
  deriving DecidableEq

structure SettlementBatchSummary where
  eventCount : Nat
  totalAmount : Nat
  uniqueParties : Nat
  ledgerMin : Nat
  ledgerMax : Nat
  windowStart : Option Int
  windowEnd : Option Int
  deriving DecidableEq

structure Group where
  key : Key
  batch : List Event

/-- `runs` are the groups that each run has still to commit. -/
structure State where
  events : List Event
  compacted : String → Option Bool
  summaries : Sql.Table Key SettlementBatchSummary
  runs : List (List Group)

variable (windowSize : Nat)

def Event.key (ev : Event) : Key := ⟨ev.contractAddress, ev.ledgerSequence / windowSize⟩

/-- In the order in which the keys first come. -/
def groups (events : List Event) : List Group :=
  (events.map (Event.key windowSize)).eraseDups.map fun key => ⟨key, events.filter fun ev => ev.key windowSize = key⟩

/-- `a ?? b` -/
def Value.orElse : Value → Value → Value
  | .null, b => b
  | a, _ => a

def Event.amt (ev : Event) : Value :=
  match ev.decoded with
  | none => .null
  | some d => (d.get "amount").orElse ((d.get "settlement_amount").orElse (d.get "value"))

def digits (text : String) : List Char := text.toList.filter Char.isDigit

/-- What an amount adds: its text without everything that is no digit. -/
def Value.added : Value → Nat
  | text amt => value (digits amt)
  | number x => value (digits (Number.finite x).text)
  | _ => 0

def partyFields : List String := ["from", "to", "seller", "buyer", "sender", "receiver"]

def Event.parties (ev : Event) : List String :=
  ev.decoded.elim [] fun d => partyFields.filterMap fun field =>
    match d.get field with
    | .text party => some party
    | _ => none

def totalAmount (batch : List Event) : Nat := (batch.map fun ev => ev.amt.added).sum

def Group.summary (group : Group) : SettlementBatchSummary where
  eventCount := group.batch.length
  totalAmount := totalAmount group.batch
  uniqueParties := (group.batch.flatMap Event.parties).dedup.length
  ledgerMin := group.key.windowKey * windowSize
  ledgerMax := group.key.windowKey * windowSize + windowSize - 1
  windowStart := group.batch.head?.map (·.ledgerCloseTime)
  windowEnd := group.batch.getLast?.map (·.ledgerCloseTime)

/-- The update keeps nothing of the stored row but the start of its window. -/
def transaction (s : State) (group : Group) : State :=
  let summary := group.summary windowSize
  { s with
    summaries := s.summaries.upsert group.key summary fun stored => { summary with windowStart := stored.windowStart }
    compacted id := if id ∈ group.batch.map Event.id then some true else s.compacted id }

/-- A transaction that fails may have been committed. -/
inductive Reply where
  | committed
  | error (executed : Bool)

def Reply.executed : Reply → Bool
  | committed => true
  | error executed => executed

inductive Act where
  | arrive (event : Event) (compacted : Option Bool)
  | start (batchLimit minEvents : Nat) (order : List Event)
  | commit (k : Nat) (reply : Reply)

/-- An order of the events that are not compacted, as the database gives it: a column
that was never set is not false. -/
def State.ordered (s : State) (order : List Event) : Bool :=
  decide (order.Perm (s.events.filter fun ev => ev.eventType = "settlement" && s.compacted ev.id = some false)) &&
    decide (order.Pairwise fun a b => a.ledgerSequence ≤ b.ledgerSequence)

def start (s : State) (batchLimit minEvents : Nat) (order : List Event) : State :=
  let pending := (groups windowSize (order.take batchLimit)).filter fun group => minEvents ≤ group.batch.length
  { s with runs := s.runs ++ [pending] }

/-- A failed transaction ends its run. -/
def commit (s : State) (k : Nat) (group : Group) (rest : List Group) (reply : Reply) : State :=
  let next := match reply with
    | .committed => rest
    | .error _ => []
  let t := if reply.executed then transaction windowSize s group else s
  { t with runs := s.runs.set k next }

def step (s : State) : Act → Option State
  | .arrive event compacted =>
    if event.id ∉ s.events.map Event.id ∧ compacted ≠ some true then
      some { s with
        events := s.events ++ [event]
        compacted := Function.update s.compacted event.id compacted }
    else none
  | .start batchLimit minEvents order =>
    if s.ordered order then some (start windowSize s batchLimit minEvents order) else none
  | .commit k reply =>
    match s.runs[k]? with
    | some (group :: rest) => some (commit windowSize s k group rest reply)
    | _ => none

def empty : State := ⟨[], fun _ => none, ∅, []⟩

def system : Transition.System State Act where
  initial s := s = empty
  step := step windowSize

/-- The events of a window that are marked compacted. -/
def State.marked (s : State) (key : Key) : List Event :=
  s.events.filter fun ev => ev.key windowSize = key && s.compacted ev.id = some true

/-- The integer that a decimal text or a number stands for. -/
def Value.integer : Value → Option Int
  | text amt =>
    match amt.toList with
    | '-' :: magnitude => if magnitude ≠ [] ∧ magnitude.all Char.isDigit then some (-value magnitude) else none
    | magnitude => if magnitude ≠ [] ∧ magnitude.all Char.isDigit then some (value magnitude) else none
  | number x => if x.den = 1 then some x.num else none
  | _ => none

def Event.integerAmount (ev : Event) : Int := ev.amt.integer.getD 0

/-- Nothing is lost by compaction. -/
def Lossless (s : State) : Prop :=
  ∀ key row, s.summaries.lookup key = some row →
    row.eventCount = (s.marked windowSize key).length ∧
      (row.totalAmount : Int) = ((s.marked windowSize key).map Event.integerAmount).sum

/-- A text of digits alone or with no digit above 0, or a safe natural number. -/
def Value.plain : Value → Bool
  | text amt => amt.toList.all Char.isDigit || (digits amt).all (· = '0')
  | number x => x.den = 1 && 0 ≤ x && x ≤ 2 ^ 53
  | _ => true

/-- A transaction that takes place has all events of its window that are marked already,
and amounts that are what their digits say. -/
def whole (s : State) : Act → Bool
  | .commit k reply =>
    match s.runs[k]? with
    | some (group :: _) => !reply.executed ||
      (decide (∀ ev ∈ s.marked windowSize group.key, ev ∈ group.batch) && group.batch.all fun ev => ev.amt.plain)
    | _ => true
  | _ => true


theorem value_zeros {digits : List Char} (zeros : digits.all (· = '0') = true) : value digits = 0 := by
  induction digits using List.reverseRecOn with
  | nil => rfl
  | append_singleton digits digit ih =>
    simp only [List.all_append, List.all_cons, List.all_nil, Bool.and_true, Bool.and_eq_true,
      decide_eq_true_eq] at zeros
    rw [value_append, ih zeros.1, zeros.2]
    rfl

theorem digits_of_all {text : List Char} (all : text.all Char.isDigit = true) : text.filter Char.isDigit = text :=
  List.filter_eq_self.mpr (List.all_eq_true.mp all)

theorem added_of_plain {amt : Value} (plain : amt.plain = true) : (amt.added : Int) = amt.integer.getD 0 := by
  cases amt with
  | null => rfl
  | other => rfl
  | text amt =>
    simp only [Value.added, digits, Value.integer, Value.plain, Bool.or_eq_true] at plain ⊢
    generalize amt.toList = text at plain ⊢
    have zero {magnitude : List Char} (all : magnitude.all Char.isDigit = true)
        (zeros : (magnitude.filter Char.isDigit).all (· = '0') = true) : value magnitude = 0 := by
      rw [digits_of_all all] at zeros
      exact value_zeros zeros
    split
    · rename_i magnitude
      rw [List.filter_cons_of_neg (by decide)] at plain ⊢
      have zeros : (magnitude.filter Char.isDigit).all (· = '0') = true := by
        rcases plain with all | zeros
        · rw [List.all_cons, Bool.and_eq_true] at all
          exact absurd all.1 (by decide)
        · exact zeros
      rw [value_zeros zeros]
      split
      · rename_i numeral
        rw [zero numeral.2 zeros]
        rfl
      · rfl
    · split
      · rename_i numeral
        rw [digits_of_all numeral.2, Option.getD_some]
      · rename_i other
        rw [Option.getD_none]
        rcases plain with all | zeros
        · have empty : text = [] := by
            by_contra nonempty
            exact other ⟨nonempty, all⟩
          rw [empty]
          rfl
        · rw [value_zeros zeros]
          rfl
  | number x =>
    simp only [Value.plain, Bool.and_eq_true, decide_eq_true_eq] at plain
    obtain ⟨⟨whole, nonneg⟩, -⟩ := plain
    have magnitude : 0 ≤ x.num := Rat.num_nonneg.mpr nonneg
    have text : (Number.finite x).text = String.ofList (decimal x.num.natAbs) := by
      rw [Number.text, if_pos whole, if_neg (not_lt.mpr magnitude)]
    have all : (decimal x.num.natAbs).all Char.isDigit = true :=
      List.all_eq_true.mpr fun _ member => isDigit_of_mem_decimal member
    rw [Value.added, text, digits, String.toList_ofList, digits_of_all all, value_decimal, Value.integer, if_pos whole,
      Option.getD_some, Int.natAbs_of_nonneg magnitude]

/-- What every run keeps: ids are unique, and what a run has read is still there. -/
structure Sound (s : State) : Prop where
  ids : (s.events.map Event.id).Nodup
  pending : ∀ run ∈ s.runs, ∀ group ∈ run,
    group.batch.Nodup ∧ ∀ ev ∈ group.batch, ev ∈ s.events ∧ ev.key windowSize = group.key
  lossless : Lossless windowSize s

theorem Sound.eq_of_id {s : State} (sound : Sound windowSize s) {a b : Event} (inside : a ∈ s.events)
    (other : b ∈ s.events) (same : a.id = b.id) : a = b :=
  List.inj_on_of_nodup_map sound.ids inside other same

theorem groups_spec {events : List Event} {group : Group} (member : group ∈ groups windowSize events) :
    group.batch = events.filter fun ev => ev.key windowSize = group.key := by
  obtain ⟨key, -, rfl⟩ := List.mem_map.mp member
  rfl

theorem totalAmount_of_plain {batch : List Event} (plain : ∀ ev ∈ batch, ev.amt.plain = true) :
    (totalAmount batch : Int) = (batch.map Event.integerAmount).sum := by
  induction batch with
  | nil => rfl
  | cons ev batch ih =>
    have first : (ev.amt.added : Int) = ev.integerAmount := added_of_plain (plain ev List.mem_cons_self)
    have rest := ih fun other member => plain other (List.mem_cons_of_mem _ member)
    simp only [totalAmount, List.map_cons, List.sum_cons, Nat.cast_add] at rest ⊢
    rw [rest, first]

/-- A transaction that has all marked events of its window leaves its batch marked. -/
theorem marked_transaction {s : State} {group : Group} (sound : Sound windowSize s) (nodup : group.batch.Nodup)
    (stored : ∀ ev ∈ group.batch, ev ∈ s.events ∧ ev.key windowSize = group.key)
    (whole : ∀ ev ∈ s.marked windowSize group.key, ev ∈ group.batch) :
    ((transaction windowSize s group).marked windowSize group.key).Perm group.batch := by
  have distinct : s.events.Nodup := List.Nodup.of_map _ sound.ids
  refine (List.perm_ext_iff_of_nodup (distinct.filter _) nodup).mpr fun ev => ?_
  simp only [transaction, List.mem_filter, Bool.and_eq_true, decide_eq_true_eq]
  constructor
  · rintro ⟨inside, keyed, marked⟩
    split at marked
    · rename_i listed
      obtain ⟨other, member, same⟩ := List.mem_map.mp listed
      rwa [← sound.eq_of_id windowSize (stored other member).1 inside same]
    · exact whole ev (List.mem_filter.mpr ⟨inside, by simp [keyed, marked]⟩)
  · intro member
    exact ⟨(stored ev member).1, (stored ev member).2, decide_eq_true (if_pos (List.mem_map_of_mem member))⟩

theorem marked_transaction_ne {s : State} {group : Group} {key : Key} (sound : Sound windowSize s)
    (stored : ∀ ev ∈ group.batch, ev ∈ s.events ∧ ev.key windowSize = group.key) (other : key ≠ group.key) :
    (transaction windowSize s group).marked windowSize key = s.marked windowSize key := by
  refine List.filter_congr fun ev inside => ?_
  by_cases keyed : ev.key windowSize = key
  · have outside : ev.id ∉ group.batch.map Event.id := by
      intro listed
      obtain ⟨twin, member, same⟩ := List.mem_map.mp listed
      rw [← sound.eq_of_id windowSize (stored twin member).1 inside same, (stored twin member).2] at keyed
      exact other keyed.symm
    simp only [transaction, if_neg outside]
  · simp only [decide_eq_false keyed, Bool.false_and]

theorem lossless_transaction {s : State} {group : Group} (sound : Sound windowSize s) (nodup : group.batch.Nodup)
    (stored : ∀ ev ∈ group.batch, ev ∈ s.events ∧ ev.key windowSize = group.key)
    (whole : ∀ ev ∈ s.marked windowSize group.key, ev ∈ group.batch)
    (plain : ∀ ev ∈ group.batch, ev.amt.plain = true) : Lossless windowSize (transaction windowSize s group) := by
  intro key row found
  by_cases same : key = group.key
  · subst same
    have marked := marked_transaction windowSize sound nodup stored whole
    have written : row.eventCount = group.batch.length ∧ row.totalAmount = totalAmount group.batch := by
      rw [transaction, Sql.Table.lookup_upsert_self] at found
      cases old : s.summaries.lookup group.key <;> rw [old] at found <;> cases found <;> exact ⟨rfl, rfl⟩
    rw [written.1, written.2, marked.length_eq, totalAmount_of_plain plain, (marked.map _).sum_eq]
    exact ⟨rfl, rfl⟩
  · rw [marked_transaction_ne windowSize sound stored same]
    rw [transaction, Sql.Table.lookup_upsert_ne same] at found
    exact sound.lossless key row found

theorem Sound.empty : Sound windowSize empty where
  ids := List.nodup_nil
  pending := by simp [Compactor.empty]
  lossless _ _ found := by simp [Compactor.empty] at found

theorem Sound.arrive {s : State} {event : Event} {compacted : Option Bool} (sound : Sound windowSize s)
    (fresh : event.id ∉ s.events.map Event.id) (unmarked : compacted ≠ some true) :
    Sound windowSize { s with
      events := s.events ++ [event]
      compacted := Function.update s.compacted event.id compacted } := by
  have marked (key : Key) : State.marked windowSize { s with
      events := s.events ++ [event]
      compacted := Function.update s.compacted event.id compacted } key = s.marked windowSize key := by
    rw [State.marked, List.filter_append, List.filter_singleton]
    simp only [Function.update_self, decide_eq_false unmarked, Bool.and_false, cond_false, List.append_nil]
    refine List.filter_congr fun ev inside => ?_
    have differs : ev.id ≠ event.id := fun same => fresh (same ▸ List.mem_map_of_mem inside)
    simp only [Function.update_of_ne differs]
  constructor
  · rw [List.map_append]
    exact List.nodup_append'.mpr ⟨sound.ids, List.nodup_singleton _, by simpa using fresh⟩
  · intro run running group member
    obtain ⟨nodup, stored⟩ := sound.pending run running group member
    exact ⟨nodup, fun ev inside => ⟨List.mem_append_left _ (stored ev inside).1, (stored ev inside).2⟩⟩
  · intro key row found
    rw [marked]
    exact sound.lossless key row found

theorem Sound.start {s : State} {batchLimit minEvents : Nat} {order : List Event} (sound : Sound windowSize s)
    (ordered : s.ordered order = true) : Sound windowSize (start windowSize s batchLimit minEvents order) := by
  refine ⟨sound.ids, ?_, sound.lossless⟩
  intro run running group member
  rcases List.mem_append.mp running with old | new
  · exact sound.pending run old group member
  · rw [List.mem_singleton.mp new] at member
    have spec := groups_spec windowSize (List.mem_of_mem_filter member)
    simp only [State.ordered, Bool.and_eq_true, decide_eq_true_eq] at ordered
    have distinct : order.Nodup :=
      ordered.1.nodup_iff.mpr ((List.Nodup.of_map _ sound.ids).filter _)
    rw [spec]
    refine ⟨(distinct.sublist (List.take_sublist _ _)).filter _, fun ev inside => ?_⟩
    have listed := List.mem_filter.mp inside
    have selected := ordered.1.mem_iff.mp (List.mem_of_mem_take listed.1)
    exact ⟨List.mem_of_mem_filter selected, of_decide_eq_true listed.2⟩

theorem Sound.commit {s : State} {k : Nat} {group : Group} {rest : List Group} {reply : Reply}
    (sound : Sound windowSize s) (running : s.runs[k]? = some (group :: rest))
    (allowed : whole windowSize s (.commit k reply) = true) :
    Sound windowSize (commit windowSize s k group rest reply) := by
  have run := List.mem_of_getElem? running
  have pending := sound.pending _ run
  obtain ⟨nodup, stored⟩ := pending group List.mem_cons_self
  have later : ∀ run ∈ s.runs.set k (match reply with | .committed => rest | .error _ => []), ∀ group ∈ run,
      group.batch.Nodup ∧ ∀ ev ∈ group.batch, ev ∈ s.events ∧ ev.key windowSize = group.key := by
    refine Transition.forall_mem_set k sound.pending ?_
    cases reply with
    | committed => exact fun group member => pending group (List.mem_cons_of_mem _ member)
    | error _ => simp
  unfold Compactor.commit
  cases executed : reply.executed with
  | false => exact ⟨sound.ids, later, sound.lossless⟩
  | true =>
    simp only [whole, running, executed, Bool.not_true, Bool.false_or, Bool.and_eq_true, decide_eq_true_eq,
      List.all_eq_true] at allowed
    exact ⟨sound.ids, later, lossless_transaction windowSize sound nodup stored allowed.1 allowed.2⟩

theorem Sound.step {s t : State} {act : Act} (sound : Sound windowSize s) (allowed : whole windowSize s act = true)
    (stepped : step windowSize s act = some t) : Sound windowSize t := by
  cases act with
  | arrive event compacted =>
    obtain ⟨⟨fresh, unmarked⟩, done⟩ := Option.ite_none_right_eq_some.mp stepped
    cases done
    exact sound.arrive windowSize fresh unmarked
  | start batchLimit minEvents order =>
    obtain ⟨ordered, done⟩ := Option.ite_none_right_eq_some.mp stepped
    cases done
    exact sound.start windowSize ordered
  | commit k reply =>
    simp only [Compactor.step] at stepped
    split at stepped
    · rename_i group rest running
      cases stepped
      exact sound.commit windowSize running allowed
    · contradiction

/-- In a run whose transactions are all whole, every summary has the events of its window that are
marked, and their amounts. -/
theorem lossless_of_whole {s : State}
    (reached : (system windowSize).ReachableWhen (fun s act => whole windowSize s act = true) s) :
    Lossless windowSize s := by
  have sound : Sound windowSize s := by
    refine reached.invariant ?_ ?_
    · rintro s rfl
      exact Sound.empty windowSize
    · intro s act t sound allowed stepped
      exact sound.step windowSize allowed stepped
  exact sound.lossless

def settlement (id : String) (ledgerSequence : Nat) (amt : Value) : Event :=
  ⟨id, "settlement", "CBANK", ledgerSequence, 0, some [("amount", amt)]⟩

/-- A late event of a window that has its summary already: the second run writes a count of 1 where
two events are marked. -/
def late : List Act :=
  [.arrive (settlement "a" 5 (.text "700")) (some false),
    .start 5000 1 [settlement "a" 5 (.text "700")],
    .commit 0 .committed,
    .arrive (settlement "b" 6 (.text "300")) (some false),
    .start 5000 1 [settlement "b" 6 (.text "300")],
    .commit 1 .committed]

theorem late_loses : ∃ s, (system 100).Reachable s ∧ ¬Lossless 100 s := by
  have counts : ((system 100).run empty late).map (fun s =>
      ((s.summaries.lookup ⟨"CBANK", 0⟩).map (·.eventCount), (s.marked 100 ⟨"CBANK", 0⟩).length)) =
        some (some 1, 2) := by decide
  obtain ⟨s, executed, counts⟩ := Option.map_eq_some_iff.mp counts
  obtain ⟨stored, marked⟩ := Prod.mk.inj counts
  refine ⟨s, Transition.System.reachable_of_run (system 100) empty late rfl executed, fun lossless => ?_⟩
  obtain ⟨row, found, count⟩ := Option.map_eq_some_iff.mp stored
  have kept := (lossless _ row found).1
  omega

/-- Two windows, compacted at once and by a run that another one overlaps. -/
def overlapping : List Act :=
  [.arrive (settlement "a" 5 (.text "700")) (some false),
    .arrive (settlement "b" 140 (.number 300)) (some false),
    .start 5000 1 [settlement "a" 5 (.text "700"), settlement "b" 140 (.number 300)],
    .commit 0 (.error true),
    .start 5000 1 [settlement "b" 140 (.number 300)],
    .commit 1 .committed]

theorem overlapping_lossless : ∃ s, (system 100).run empty overlapping = some s ∧
    (s.summaries.lookup ⟨"CBANK", 1⟩).map (·.totalAmount) = some 300 ∧ Lossless 100 s := by
  have total : ((system 100).run empty overlapping).map (fun s =>
      (s.summaries.lookup ⟨"CBANK", 1⟩).map (·.totalAmount)) = some (some 300) := by decide
  obtain ⟨s, executed, total⟩ := Option.map_eq_some_iff.mp total
  refine ⟨s, executed, total, lossless_of_whole 100 ?_⟩
  refine Transition.System.reachableWhen_of_run (system 100) empty overlapping rfl ?_ executed
  exact Transition.System.guarded_of_guardedBy (whole 100) (fun _ _ => id) (by decide)

end Octraban.Compactor
