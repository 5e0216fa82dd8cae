import Mathlib.Data.Fintype.Fin
import Mathlib.Tactic.Ring

/-! rpcMultiNode.js: a call goes to the primary node, and from a node that fails or lags to the
next one marked healthy. Nodes are known by their place in the list. -/
namespace Octraban.RpcMultiNode

structure Node where
  url : String
  healthy : Bool
  latestLedger : Int

/-- The module's variables `nodes` and `primaryIndex`. -/
structure Pool (n : Nat) where
  nodes : Fin n → Node
  primaryIndex : Fin n

structure RpcResult where
  latestLedger : Option Int
  sequence : Option Int
  deriving DecidableEq

/-- How a request to one node ends; a timeout fails as an error does. -/
inductive Answer where
  | result (result : RpcResult)
  | failed

inductive Verdict where
  | answered
  | lagged
  | failed
  deriving DecidableEq

variable {n : Nat}

/-- `(startIndex + i) % nodes.length` -/
def ahead (startIndex : Fin n) (i : Nat) : Fin n := ⟨(startIndex + i) % n, Nat.mod_lt _ startIndex.pos⟩

def markUnhealthy (nodes : Fin n → Node) (idx : Fin n) : Fin n → Node :=
  Function.update nodes idx { nodes idx with healthy := false }

/-- When no node is healthy all are marked so again, and the first one is next. -/
def nextHealthy (nodes : Fin n → Node) (startIndex : Fin n) : (Fin n → Node) × Fin n :=
  match ((List.range' 1 n).map (ahead startIndex)).find? fun idx => (nodes idx).healthy with
  | some idx => (nodes, idx)
  | none => (fun idx => { nodes idx with healthy := true }, ⟨0, startIndex.pos⟩)

/-- `if (ledger) node.latestLedger = ledger` -/
def learn (nodes : Fin n → Node) (idx : Fin n) (result : RpcResult) : Fin n → Node :=
  match result.latestLedger <|> result.sequence with
  | some ledger => if ledger = 0 then nodes else Function.update nodes idx { nodes idx with latestLedger := ledger }
  | none => nodes

def bestLedger (nodes : Fin n → Node) (idx : Fin n) : Int :=
  ((List.finRange n).map fun j => (nodes j).latestLedger).foldl max (nodes idx).latestLedger

/-- A call with the nodes it was sent to; without a result it throws. -/
structure Invocation (n : Nat) where
  pool : Pool n
  calls : List (Fin n × Verdict)
  result : Option RpcResult

def Invocation.after (call : Fin n × Verdict) (rest : Invocation n) : Invocation n :=
  { rest with calls := call :: rest.calls }

/-- The loop, with what the next attempts are answered. -/
def attempts (lagThreshold : Int) (answers : Nat → Answer) : Nat → Pool n → Fin n → Invocation n
  | 0, pool, _ => ⟨pool, [], none⟩
  | remaining + 1, pool, idx =>
    match answers 0 with
    | .failed =>
      let (nodes, next) := nextHealthy (markUnhealthy pool.nodes idx) idx
      (attempts lagThreshold (fun i => answers (i + 1)) remaining { pool with nodes } next).after (idx, .failed)
    | .result result =>
      let nodes := learn pool.nodes idx result
      if bestLedger nodes idx - (nodes idx).latestLedger > lagThreshold then
        let (nodes, next) := nextHealthy (markUnhealthy nodes idx) idx
        (attempts lagThreshold (fun i => answers (i + 1)) remaining ⟨nodes, next⟩ next).after (idx, .lagged)
      else ⟨⟨nodes, idx⟩, [(idx, .answered)], some result⟩

def callWithFailover (lagThreshold : Int) (pool : Pool n) (answers : Nat → Answer) : Invocation n :=
  attempts lagThreshold answers n pool pool.primaryIndex

/-- A call that throws has asked every node, and each of them failed or lagged. -/
def Exhaustive (pool : Pool n) (lagThreshold : Int) (answers : Nat → Answer) : Prop :=
  (callWithFailover lagThreshold pool answers).result = none →
    ∀ idx, ∃ verdict, (idx, verdict) ∈ (callWithFailover lagThreshold pool answers).calls ∧ verdict ≠ .answered

/-! ### The nodes that are asked -/

/-- Which nodes are marked healthy, all that the order of the calls depends on. -/
abbrev Marks (n : Nat) := Fin n → Bool

def marks (nodes : Fin n → Node) : Marks n := fun idx => (nodes idx).healthy

/-- The marks and the node that come after a call without an answer. -/
def nextMark (healthy : Marks n) (idx : Fin n) : Marks n × Fin n :=
  let healthy := Function.update healthy idx false
  match ((List.range' 1 n).map (ahead idx)).find? fun j => healthy j with
  | some next => (healthy, next)
  | none => (fun _ => true, ⟨0, idx.pos⟩)

/-- The nodes asked by some calls that are not answered. -/
def visits : Nat → Marks n → Fin n → List (Fin n)
  | 0, _, _ => []
  | remaining + 1, healthy, idx => idx :: visits remaining (nextMark healthy idx).1 (nextMark healthy idx).2

variable {healthy : Marks n} {idx j : Fin n} {pool : Pool n} {lagThreshold : Int} {answers : Nat → Answer}

theorem marks_markUnhealthy (nodes : Fin n → Node) (idx : Fin n) :
    marks (markUnhealthy nodes idx) = Function.update (marks nodes) idx false := by
  funext j
  unfold marks markUnhealthy
  by_cases same : j = idx
  · rw [same, Function.update_self, Function.update_self]
  · rw [Function.update_of_ne same, Function.update_of_ne same]

theorem marks_learn (nodes : Fin n → Node) (idx : Fin n) (result : RpcResult) :
    marks (learn nodes idx result) = marks nodes := by
  rw [learn]
  split
  · split
    · rfl
    · funext j
      simp only [marks]
      by_cases same : j = idx
      · rw [same, Function.update_self]
      · rw [Function.update_of_ne same]
  · rfl

theorem marks_nextHealthy (nodes : Fin n → Node) (idx : Fin n) :
    (marks (nextHealthy (markUnhealthy nodes idx) idx).1, (nextHealthy (markUnhealthy nodes idx) idx).2) =
      nextMark (marks nodes) idx := by
  have same (j : Fin n) : (markUnhealthy nodes idx j).healthy = Function.update (marks nodes) idx false j :=
    congrFun (marks_markUnhealthy nodes idx) j
  rw [nextHealthy, nextMark]
  simp only [same]
  cases ((List.range' 1 n).map (ahead idx)).find? fun j => Function.update (marks nodes) idx false j with
  | none => rfl
  | some next => exact congrArg (Prod.mk · next) (marks_markUnhealthy nodes idx)

/-- A call that throws has gone through the nodes that the marks give, without an answer. -/
theorem calls_of_throws {remaining : Nat} (throws : (attempts lagThreshold answers remaining pool idx).result = none) :
    (attempts lagThreshold answers remaining pool idx).calls.map Prod.fst = visits remaining (marks pool.nodes) idx ∧
      ∀ call ∈ (attempts lagThreshold answers remaining pool idx).calls, call.2 ≠ .answered := by
  induction remaining generalizing pool idx answers with
  | zero => exact ⟨rfl, fun _ impossible => (List.not_mem_nil impossible).elim⟩
  | succ remaining ih =>
    rw [attempts] at throws ⊢
    cases first : answers 0 with
    | failed =>
      have order := Prod.ext_iff.mp (marks_nextHealthy pool.nodes idx)
      rw [first] at throws
      obtain ⟨called, unanswered⟩ := ih throws
      rw [visits, ← order.1, ← order.2]
      exact ⟨congrArg (idx :: ·) called, List.forall_mem_cons.mpr ⟨nofun, unanswered⟩⟩
    | result result =>
      rw [first] at throws
      dsimp only at throws ⊢
      split at throws
      · rename_i lags
        have order := Prod.ext_iff.mp (marks_nextHealthy (learn pool.nodes idx result) idx)
        rw [marks_learn] at order
        obtain ⟨called, unanswered⟩ := ih throws
        rw [if_pos lags, visits, ← order.1, ← order.2]
        exact ⟨congrArg (idx :: ·) called, List.forall_mem_cons.mpr ⟨nofun, unanswered⟩⟩
      · cases throws

theorem throws_of_failed (lagThreshold : Int) (remaining : Nat) (pool : Pool n) (idx : Fin n) :
    (attempts lagThreshold (fun _ => .failed) remaining pool idx).result = none := by
  induction remaining generalizing pool idx with
  | zero => rfl
  | succ remaining ih => exact ih _ _

/-- The other nodes that are marked healthy. -/
def spares (healthy : Marks n) (idx : Fin n) : Finset (Fin n) := {j | j ≠ idx ∧ healthy j}

/-- The other nodes that an earlier call has left unhealthy. -/
def stale (healthy : Marks n) (idx : Fin n) : Finset (Fin n) := {j | j ≠ idx ∧ ¬ healthy j}

theorem spares_next (healthy : Marks n) (idx j : Fin n) :
    spares (Function.update healthy idx false) j = (spares healthy idx).erase j := by
  ext i
  simp only [spares]
  rw [Finset.mem_filter_univ, Finset.mem_erase, Finset.mem_filter_univ]
  by_cases same : i = idx
  · simp [same]
  · rw [Function.update_of_ne same]
    exact ⟨fun ⟨different, set⟩ => ⟨different, same, set⟩, fun ⟨different, _, set⟩ => ⟨different, set⟩⟩

/-- Every node lies ahead of every node. -/
theorem exists_ahead (idx j : Fin n) : j ∈ (List.range' 1 n).map (ahead idx) := by
  have bounds := idx.isLt
  have within := j.isLt
  rw [List.mem_map]
  by_cases later : idx < j
  · refine ⟨j - idx, List.mem_range'_1.mpr (by omega), Fin.ext ?_⟩
    have sum : (idx : Nat) + (j - idx) = j := by omega
    change ((idx : Nat) + (j - idx)) % n = j
    rw [sum, Nat.mod_eq_of_lt within]
  · refine ⟨n + j - idx, List.mem_range'_1.mpr (by omega), Fin.ext ?_⟩
    have sum : (idx : Nat) + (n + j - idx) = j + n := by omega
    change ((idx : Nat) + (n + j - idx)) % n = j
    rw [sum, Nat.add_mod_right, Nat.mod_eq_of_lt within]

theorem nextMark_of_spare (spare : (spares healthy idx).Nonempty) :
    ∃ next ∈ spares healthy idx, nextMark healthy idx = (Function.update healthy idx false, next) := by
  obtain ⟨j, present⟩ := spare
  obtain ⟨other, marked⟩ := (Finset.mem_filter_univ j).mp present
  unfold nextMark
  dsimp only
  cases search : ((List.range' 1 n).map (ahead idx)).find? fun j => Function.update healthy idx false j with
  | none =>
    have unmarked := List.find?_eq_none.mp search j (exists_ahead idx j)
    rw [Function.update_of_ne other] at unmarked
    exact absurd marked unmarked
  | some next =>
    have found : Function.update healthy idx false next = true := List.find?_some search
    have different : next ≠ idx := fun same => by simp [same] at found
    rw [Function.update_of_ne different] at found
    exact ⟨next, (Finset.mem_filter_univ next).mpr ⟨different, found⟩, rfl⟩

theorem nextMark_of_none (none : spares healthy idx = ∅) :
    nextMark healthy idx = (fun _ => true, ⟨0, idx.pos⟩) := by
  have search : ((List.range' 1 n).map (ahead idx)).find? (fun j => Function.update healthy idx false j) = .none := by
    rw [List.find?_eq_none]
    intro j _ marked
    by_cases same : j = idx
    · simp [same] at marked
    · rw [Function.update_of_ne same] at marked
      exact Finset.notMem_empty j (none ▸ (Finset.mem_filter_univ j).mpr ⟨same, marked⟩)
  unfold nextMark
  dsimp only
  rw [search]

/-- The node itself and the spare ones come first, then the list from its head. -/
theorem visits_spares (healthy : Marks n) (idx : Fin n) (remaining : Nat) :
    ∃ order : List (Fin n), (∀ j, j ∈ order ↔ j = idx ∨ healthy j) ∧
      visits ((spares healthy idx).card + 1 + remaining) healthy idx =
        order ++ visits remaining (fun _ => true) ⟨0, idx.pos⟩ := by
  induction size : (spares healthy idx).card generalizing healthy idx with
  | zero =>
    have none := Finset.card_eq_zero.mp size
    refine ⟨[idx], fun j => ?_, ?_⟩
    · rw [List.mem_singleton]
      refine ⟨.inl, fun asked => asked.elim id fun marked => ?_⟩
      by_contra other
      exact Finset.notMem_empty j (none ▸ (Finset.mem_filter_univ j).mpr ⟨other, marked⟩)
    · rw [show 0 + 1 + remaining = remaining + 1 by omega, visits, nextMark_of_none none]
      rfl
  | succ count ih =>
    have spare : (spares healthy idx).Nonempty := Finset.card_pos.mp (size.symm ▸ count.succ_pos)
    obtain ⟨next, present, step⟩ := nextMark_of_spare spare
    obtain ⟨other, marked⟩ := (Finset.mem_filter_univ next).mp present
    have fewer : (spares (Function.update healthy idx false) next).card = count := by
      rw [spares_next, Finset.card_erase_of_mem present, size, Nat.add_sub_cancel]
    obtain ⟨order, asked, follows⟩ := ih _ _ fewer
    refine ⟨idx :: order, fun j => ?_, ?_⟩
    · rw [List.mem_cons, asked]
      by_cases same : j = idx
      · simp [same]
      · rw [Function.update_of_ne same]
        exact ⟨fun either => either.imp_right fun either => either.elim (· ▸ marked) id, Or.imp_right .inr⟩
    · rw [show count + 1 + 1 + remaining = count + 1 + remaining + 1 by omega, visits, step, follows]
      rfl

/-- After the reset the nodes are asked in the order of the list. -/
theorem mem_visits_from (start remaining : Nat) (fits : start + remaining ≤ n) (within : start < n) :
    j ∈ visits remaining (fun j => decide (start ≤ j)) ⟨start, within⟩ ↔ start ≤ j ∧ j < start + remaining := by
  induction remaining generalizing start with
  | zero =>
    rw [visits]
    exact iff_of_false List.not_mem_nil (by omega)
  | succ remaining ih =>
    rw [visits, List.mem_cons, Fin.ext_iff]
    change (j : Nat) = start ∨ _ ↔ _
    by_cases last : remaining = 0
    · rw [last, visits]
      simp only [List.not_mem_nil, or_false]
      omega
    · have follows : start + 1 < n := by omega
      have step : nextMark (fun j : Fin n => decide (start ≤ j)) ⟨start, within⟩ =
          (fun j : Fin n => decide (start + 1 ≤ j), ⟨start + 1, follows⟩) := by
        have marks : Function.update (fun j : Fin n => decide (start ≤ j)) ⟨start, within⟩ false =
            fun j : Fin n => decide (start + 1 ≤ j) := by
          funext i
          by_cases same : i = ⟨start, within⟩
          · rw [same, Function.update_self]
            exact (decide_eq_false (by simp)).symm
          · rw [Function.update_of_ne same]
            have different : (i : Nat) ≠ start := fun equal => same (Fin.ext equal)
            exact decide_eq_decide.mpr (by omega)
        have first : ahead ⟨start, within⟩ 1 = ⟨start + 1, follows⟩ := Fin.ext (Nat.mod_eq_of_lt follows)
        obtain ⟨count, rfl⟩ : ∃ count, n = count + 1 := ⟨n - 1, by omega⟩
        unfold nextMark
        dsimp only
        rw [marks, List.range'_succ, List.map_cons, first, List.find?_cons_of_pos (by simp)]
      rw [step, ih (start + 1) (by omega) follows]
      omega

theorem mem_visits : j ∈ visits n healthy idx ↔ j = idx ∨ healthy j ∨ j < (stale healthy idx).card := by
  have partition : (spares healthy idx).card + 1 + (stale healthy idx).card = n := by
    have split := Finset.card_filter_add_card_filter_not (s := Finset.univ.erase idx) (fun j => healthy j = true)
    have others : (Finset.univ.erase idx).card = n - 1 := by
      rw [Finset.card_erase_of_mem (Finset.mem_univ idx), Finset.card_univ, Fintype.card_fin]
    have left : (Finset.univ.erase idx).filter (fun j => healthy j = true) = spares healthy idx := by
      ext j
      simp [spares]
    have right : (Finset.univ.erase idx).filter (fun j => ¬ healthy j = true) = stale healthy idx := by
      ext j
      simp [stale]
    rw [left, right, others] at split
    have positive := idx.pos
    omega
  obtain ⟨order, asked, follows⟩ := visits_spares healthy idx (stale healthy idx).card
  rw [partition] at follows
  have rest := mem_visits_from (j := j) 0 (stale healthy idx).card (by omega) idx.pos
  simp only [Nat.zero_le, decide_true, true_and, Nat.zero_add] at rest
  rw [follows, List.mem_append, asked, rest, or_assoc]

/-- A set of places that all lie below its size starts the list. -/
theorem below_card_iff (places : Finset (Fin n)) :
    (∀ j ∈ places, (j : Nat) < places.card) ↔ ∀ j ∈ places, ∀ i < j, i ∈ places := by
  constructor
  · intro below j present i earlier
    have bounded : places.card ≤ n := places.card_le_univ.trans_eq (Fintype.card_fin n)
    have inside : places ⊆ Finset.univ.filter fun j : Fin n => (j : Nat) < places.card :=
      fun j present => (Finset.mem_filter_univ j).mpr (below j present)
    have size : (Finset.univ.filter fun j : Fin n => (j : Nat) < places.card).card = places.card := by
      rw [Fin.card_filter_val_lt, Nat.min_eq_right bounded]
    rw [Finset.eq_of_subset_of_card_le inside size.le]
    exact (Finset.mem_filter_univ i).mpr ((Fin.lt_def.mp earlier).trans (below j present))
  · intro closed j present
    have inside : Finset.Iic j ⊆ places := fun i upTo =>
      (Finset.mem_Iic.mp upTo).eq_or_lt.elim (· ▸ present) (closed j present i)
    have size := Finset.card_le_card inside
    rw [Fin.card_Iic] at size
    exact size

/-- A call asks every node before it throws, whatever the answers, exactly if the nodes that
earlier calls left unhealthy, the primary apart, are the first ones of the list: the reset in
`nextHealthy` goes on from there, and the attempts are as many as the nodes. -/
theorem failover_exhaustive_iff (lagThreshold : Int) (pool : Pool n) :
    (∀ answers, Exhaustive pool lagThreshold answers) ↔
      ∀ j, j ≠ pool.primaryIndex → (pool.nodes j).healthy = false →
        ∀ i < j, i ≠ pool.primaryIndex ∧ (pool.nodes i).healthy = false := by
  have asked : (∀ answers, Exhaustive pool lagThreshold answers) ↔
      ∀ j, j ∈ visits n (marks pool.nodes) pool.primaryIndex := by
    constructor
    · intro exhaustive j
      have throws := throws_of_failed lagThreshold n pool pool.primaryIndex
      obtain ⟨verdict, called, _⟩ := exhaustive (fun _ => .failed) throws j
      rw [← (calls_of_throws throws).1]
      exact List.mem_map_of_mem called
    · intro all answers throws j
      obtain ⟨order, unanswered⟩ := calls_of_throws throws
      obtain ⟨call, called, same⟩ := List.mem_map.mp (order ▸ all j)
      exact ⟨call.2, same ▸ called, unanswered call called⟩
  have first : (∀ j, j ∈ visits n (marks pool.nodes) pool.primaryIndex) ↔
      ∀ j ∈ stale (marks pool.nodes) pool.primaryIndex, (j : Nat) < (stale (marks pool.nodes) pool.primaryIndex).card := by
    refine forall_congr' fun j => ?_
    rw [mem_visits]
    rw [stale]
    rw [Finset.mem_filter_univ]
    tauto
  rw [asked, first, below_card_iff]
  simp only [stale, marks]
  simp only [Finset.mem_filter_univ, Bool.not_eq_true, and_imp]

/-- Of three nodes the second is marked unhealthy. -/
def oneStale : Pool 3 where
  nodes := fun idx => ⟨"http://rpc", idx ≠ 1, 0⟩
  primaryIndex := 0

/-- The first and the third node fail, and the reset leads to the first one again. -/
theorem failover_exhaustive_oneStale :
    (callWithFailover 5 oneStale fun _ => .failed).result = none ∧
      (callWithFailover 5 oneStale fun _ => .failed).calls = [(0, .failed), (2, .failed), (0, .failed)] ∧
      ¬ Exhaustive oneStale 5 fun _ => .failed := by
  have throws : (callWithFailover 5 oneStale fun _ => .failed).result = none := by decide
  have calls : (callWithFailover 5 oneStale fun _ => .failed).calls =
      [(0, .failed), (2, .failed), (0, .failed)] := by decide
  refine ⟨throws, calls, fun exhaustive => ?_⟩
  obtain ⟨verdict, called, _⟩ := exhaustive throws 1
  rw [calls] at called
  revert called
  cases verdict <;> decide

end Octraban.RpcMultiNode
