import Octraban.Core.JavaScript
import Octraban.Indexer.CallGraph

/-! detector.ts: the six patterns of re-entrancy looked for in a call graph, most of them in the
loops between contracts. -/
namespace Octraban.Reentrancy
open JavaScript

inductive ReentrancyType where
  | simple | crossContract | multiStep | readOnly | crossFunction | destructive
  deriving DecidableEq

def ReentrancyType.text : ReentrancyType → String
  | simple => "SIMPLE"
  | crossContract => "CROSS_CONTRACT"
  | multiStep => "MULTI_STEP"
  | readOnly => "READ_ONLY"
  | crossFunction => "CROSS_FUNCTION"
  | destructive => "DESTRUCTIVE"

inductive ReentrancySeverity where
  | low | medium | high | critical
  deriving DecidableEq

structure Detection where
  confidence : Number
  loopPath : List PathEntry

/-- `Math.min(1, base + count * unit)` -/
def confidenceOf (base unit : ℚ) (count : Nat) : Number :=
  (Number.finite 1).min ((roundRat base).add ((Number.finite count).mul (roundRat unit)))

def extractLoopPathFromContractCycle (contractCycle : List String) (graph : CallGraph) : List PathEntry :=
  mapContractCycleToVertexPath contractCycle graph

def extractLoopPath (cycle : List Nat) (graph : CallGraph) : List PathEntry :=
  let contractMap := buildVertexContractMap graph
  cycle.map fun vtxId =>
    let v := getVertex graph vtxId
    { contractAddress := (contractMap.get vtxId).getD "unknown"
      functionName := (v.map CallGraphVertex.functionName).getD "unknown"
      callIndex := (v.map CallGraphVertex.callIndex).getD 0 }

def selfCalls (graph : CallGraph) : List (CallGraphVertex × CallGraphVertex) :=
  graph.edges.filterMap fun edge =>
    match getVertex graph edge.fromVertexId, getVertex graph edge.toVertexId with
    | some fromVtx, some toVtx =>
      if fromVtx.contractAddress = toVtx.contractAddress ∧ fromVtx.callIndex < toVtx.callIndex then
        some (fromVtx, toVtx)
      else none
    | _, _ => none

def contractCounts (graph : CallGraph) : OrderedMap String Nat :=
  graph.vertices.foldl (fun counts v => counts.update v.contractAddress 0 fun count => count + 1) .empty

def repeated (graph : CallGraph) : List (String × Nat) :=
  (contractCounts graph).entries.filter fun (_, count) => count > 1

/-- Each later occurrence of a contract, with the one before it. -/
def repeatPath (graph : CallGraph) : List PathEntry :=
  (graph.vertices.foldl
    (fun (loopPath, seen) v =>
      ((match seen.get v.contractAddress with
        | some prev =>
          if prev < v.callIndex then loopPath ++ [{ v.entry with callIndex := prev }, v.entry] else loopPath
        | none => loopPath),
      seen.set v.contractAddress v.callIndex))
    (([] : List PathEntry), (.empty : OrderedMap String Nat))).1

def detectSimpleReentrancy (graph : CallGraph) : Option Detection :=
  let selfCalls := selfCalls graph
  let repeated := repeated graph
  if selfCalls.length = 0 ∧ repeated.length = 0 then none
  else
    let loopPath := repeatPath graph
    some
      { confidence :=
          (Number.finite 1).min ((Number.finite (selfCalls.length + repeated.length : Nat)).mul (roundRat 0.35))
        loopPath := if loopPath.length > 0 then loopPath else repeated.map fun (addr, _) => ⟨addr, "unknown", 0⟩ }

def crossContractCycles (graph : CallGraph) : List (List String) :=
  (findContractCycles graph).filter fun cycle => cycle.length = 2 ∧ cycle[0]? ≠ cycle[1]?

def detectCrossContractReentrancy (graph : CallGraph) : Option Detection :=
  match crossContractCycles graph with
  | first :: rest =>
    some ⟨confidenceOf 0.5 0.15 (first :: rest).length, extractLoopPathFromContractCycle first graph⟩
  | [] =>
    let contractMap := buildVertexContractMap graph
    let vertexCrossCycles := (findCycles graph).filter fun cycle =>
      let contracts := cycle.map contractMap.get
      cycle.length = 3 ∧ contracts[0]? = contracts[2]? ∧ contracts[0]? ≠ contracts[1]?
    match vertexCrossCycles with
    | [] => none
    | first :: rest => some ⟨confidenceOf 0.5 0.15 (first :: rest).length, extractLoopPath first graph⟩

def multiStepCycles (graph : CallGraph) : List (List String) :=
  (findContractCycles graph).filter fun cycle => ¬ cycle.length < 3 ∧ (Ordered.ofList cycle).length = cycle.length

def detectMultiStepReentrancy (graph : CallGraph) : Option Detection :=
  match multiStepCycles graph with
  | first :: rest =>
    some ⟨confidenceOf 0.4 0.1 (first :: rest).length, extractLoopPathFromContractCycle first graph⟩
  | [] =>
    let contractMap := buildVertexContractMap graph
    let vMultiStep := (findCycles graph).filter fun cycle =>
      let contracts := cycle.map contractMap.get
      ¬ cycle.length < 4 ∧ contracts.head? = contracts.getLast? ∧
        (Ordered.ofList contracts).length = contracts.length - 1
    match vMultiStep with
    | [] => none
    | first :: rest => some ⟨confidenceOf 0.4 0.1 (first :: rest).length, extractLoopPath first graph⟩

def verticesOf (contract : String) (graph : CallGraph) : List CallGraphVertex :=
  graph.vertices.filter fun v => v.contractAddress = contract

def detectReadOnlyReentrancy (graph : CallGraph) : Option Detection :=
  (findContractCycles graph).findSome? fun cycle =>
    match cycle with
    | firstContract :: intermediate :: others =>
      match graph.vertices.find? fun v => v.contractAddress = firstContract ∧ v.preStateReads.length > 0 with
      | none => none
      | some firstVtx =>
        (intermediate :: others).findSome? fun intermediateContract =>
          (verticesOf intermediateContract graph).findSome? fun iv =>
            let staleKeys := firstVtx.preStateReads.filter fun key => key ∈ iv.postStateWrites
            if staleKeys.length > 0 then
              some ⟨confidenceOf 0.3 0.15 staleKeys.length, extractLoopPathFromContractCycle cycle graph⟩
            else none
    | _ => none

def detectCrossFunctionReentrancy (graph : CallGraph) : Option Detection :=
  let atContracts := (findContractCycles graph).findSome? fun cycle =>
    match cycle with
    | contract :: _ :: _ =>
      match byCallIndex (verticesOf contract graph) with
      | first :: second :: others =>
        let last := (second :: others).getLast (List.cons_ne_nil second others)
        if first.functionName ≠ last.functionName then
          some ⟨roundRat 0.85, extractLoopPathFromContractCycle cycle graph⟩
        else none
      | _ => none
    | _ => none
  match atContracts with
  | some detection => some detection
  | none =>
    let crossFunctionCycles := (findCycles graph).filter fun cycle =>
      match cycle.head?.bind (getVertex graph), cycle.getLast?.bind (getVertex graph) with
      | some first, some last =>
        ¬ cycle.length < 3 ∧ first.contractAddress = last.contractAddress ∧ first.functionName ≠ last.functionName
      | _, _ => false
    match crossFunctionCycles with
    | [] => none
    | first :: rest => some ⟨confidenceOf 0.45 0.12 (first :: rest).length, extractLoopPath first graph⟩

def codeKeyPatterns : List String := ["wasm", "code", "bytecode", "deploy", "init", "constructor"]

def storesCode (v : CallGraphVertex) : Bool :=
  v.postStateWrites.any fun key => codeKeyPatterns.any fun pattern => pattern.toList <:+: key.toLower.toList

def detectDestructiveReentrancy (graph : CallGraph) : Option Detection :=
  let atContracts := (findContractCycles graph).findSome? fun cycle =>
    if cycle.length < 2 then none
    else
      (cycle.drop 1).findSome? fun intermediateContract =>
        ((verticesOf intermediateContract graph).find? storesCode).map fun _ =>
          ⟨roundRat 0.7, extractLoopPathFromContractCycle cycle graph⟩
  match atContracts with
  | some detection => some detection
  | none =>
    (findCycles graph).findSome? fun cycle =>
      if cycle.length < 3 then none
      else
        (cycle.drop 1).dropLast.findSome? fun vtxId =>
          ((getVertex graph vtxId).filter storesCode).map fun _ => ⟨roundRat 0.7, extractLoopPath cycle graph⟩

structure DetectionPattern where
  type : ReentrancyType
  name : String
  description : String
  severity : ReentrancySeverity
  detect : CallGraph → Option Detection

def detectionPatterns : List DetectionPattern :=
  [{ type := .simple
     name := "Simple Reentrancy"
     description := "Same contract calls itself within a single transaction. Pattern: A → A."
     severity := .high
     detect := detectSimpleReentrancy },
   { type := .crossContract
     name := "Cross-Contract Reentrancy"
     description := "Two different contracts calling each other in a loop. Pattern: A → B → A."
     severity := .critical
     detect := detectCrossContractReentrancy },
   { type := .multiStep
     name := "Multi-Step Reentrancy"
     description := "Reentrancy loop spanning 4+ contract calls. Pattern: A → B → C → A."
     severity := .critical
     detect := detectMultiStepReentrancy },
   { type := .readOnly
     name := "Read-Only Reentrancy"
     description := "Contract reads state, external call modifies it, callback reads stale state. " ++
       "Pattern: A reads → B → A reads stale."
     severity := .high
     detect := detectReadOnlyReentrancy },
   { type := .crossFunction
     name := "Cross-Function Reentrancy"
     description := "Same contract re-entered through a different function. Pattern: A.func1 → B → A.func2."
     severity := .high
     detect := detectCrossFunctionReentrancy },
   { type := .destructive
     name := "Destructive Reentrancy"
     description := "Contract deploys new code mid-transaction and calls back. " ++
       "Pattern: A → B stores code → B → A."
     severity := .critical
     detect := detectDestructiveReentrancy }]

structure ReentrancyFinding where
  id : String
  txHash : String
  contractAddress : String
  reentrancyType : ReentrancyType
  severity : ReentrancySeverity
  likelihood : String
  loopPath : List PathEntry
  entryPoint : String
  valueAtRisk : Option String
  usdValueAtRisk : Option Number
  profitPotential : Option Number
  description : String

def findingOf (txHash entryPoint : String) (valueAtRisk : Option String) (usdValueAtRisk : Option Number)
    (pattern : DetectionPattern) (result : Detection) : ReentrancyFinding where
  id := "finding_" ++ String.ofList (txHash.toList.take 12) ++ "_" ++ pattern.type.text
  txHash := txHash
  contractAddress := entryPoint
  reentrancyType := pattern.type
  severity := pattern.severity
  likelihood := if (roundRat 0.8).le result.confidence then "confirmed" else "theoretical"
  loopPath := result.loopPath
  entryPoint := entryPoint
  valueAtRisk := valueAtRisk
  usdValueAtRisk := usdValueAtRisk
  profitPotential := usdValueAtRisk.map fun usd => usd.mul result.confidence
  description := pattern.name ++ ": " ++ pattern.description

/-- The contract of the first call. -/
def entryPoint (graph : CallGraph) : String :=
  (graph.vertices.head?.map CallGraphVertex.contractAddress).getD "unknown"

def detectReentrancy (txHash : String) (graph : CallGraph) (valueAtRisk : Option String)
    (usdValueAtRisk : Option Number) : List ReentrancyFinding :=
  detectionPatterns.filterMap fun pattern =>
    match pattern.detect graph with
    | none => none
    | some result =>
      if (roundRat 0.4).le result.confidence then
        some (findingOf txHash (entryPoint graph) valueAtRisk usdValueAtRisk pattern result)
      else none

def Reports (findings : List ReentrancyFinding) (type : ReentrancyType) : Prop :=
  ∃ finding ∈ findings, finding.reentrancyType = type

/-- A call of another contract made by `a` calls `a` back. -/
def CrossReentrant (calls : Calls) : Prop := ∃ a b above, a ≠ b ∧ a :: b :: a :: above ∈ calls.chains []

/-- At least three contracts call each other in turn, and the last one calls the first. -/
def MultiReentrant (calls : Calls) : Prop :=
  ∃ inner first above, 2 ≤ inner.length ∧ (inner ++ [first]).Nodup ∧
    first :: (inner ++ first :: above) ∈ calls.chains []

/-- The chain by which the search first comes to `b` ends with a contract that `b` calls. -/
def CrossEntered (calls : Calls) : Prop :=
  ∃ below a b, DepthFirst.Enters calls.callees [] calls.contracts (below ++ [a]) b ∧ a ∈ calls.callees b

/-- `b` calls a contract further up the chain by which the search first comes to it. -/
def MultiEntered (calls : Calls) : Prop :=
  ∃ below a b, DepthFirst.Enters calls.callees [] calls.contracts (below ++ [a]) b ∧
    ∃ c ∈ below, c ∈ calls.callees b

variable {calls : Calls} {graph : CallGraph} {type : ReentrancyType}

/-- A pattern that is certain enough. -/
def Alarms (detected : Option Detection) : Prop :=
  ∃ result, detected = some result ∧ (roundRat 0.4).le result.confidence = true

theorem reports_iff (txHash : String) (valueAtRisk : Option String) (usdValueAtRisk : Option Number) :
    Reports (detectReentrancy txHash graph valueAtRisk usdValueAtRisk) type ↔
      ∃ pattern ∈ detectionPatterns, pattern.type = type ∧ Alarms (pattern.detect graph) := by
  simp only [Reports, detectReentrancy, List.mem_filterMap]
  constructor
  · rintro ⟨finding, ⟨pattern, member, made⟩, named⟩
    refine ⟨pattern, member, ?_⟩
    cases found : pattern.detect graph with
    | none => rw [found] at made; cases made
    | some result =>
      simp only [found] at made
      split at made
      · rename_i sure
        obtain rfl := Option.some.inj made
        exact ⟨named, result, rfl, sure⟩
      · cases made
  · rintro ⟨pattern, member, named, result, found, sure⟩
    refine ⟨findingOf txHash (entryPoint graph) valueAtRisk usdValueAtRisk pattern result,
      ⟨pattern, member, ?_⟩, named⟩
    rw [found]
    exact if_pos sure

theorem detectReentrancy_eq_nil (txHash : String) (valueAtRisk : Option String)
    (usdValueAtRisk : Option Number) :
    detectReentrancy txHash graph valueAtRisk usdValueAtRisk = [] ↔
      ∀ pattern ∈ detectionPatterns, ¬ Alarms (pattern.detect graph) := by
  constructor
  · intro none pattern member alarms
    obtain ⟨finding, found, -⟩ :=
      (reports_iff txHash valueAtRisk usdValueAtRisk).mpr ⟨pattern, member, rfl, alarms⟩
    rw [none] at found
    cases found
  · intro quiet
    refine List.eq_nil_iff_forall_not_mem.mpr fun finding member => ?_
    obtain ⟨pattern, known, -, alarms⟩ :=
      (reports_iff txHash valueAtRisk usdValueAtRisk).mp ⟨finding, member, rfl⟩
    exact quiet pattern known alarms

theorem threshold : roundRat 0.4 = .finite (3602879701896397 / 9007199254740992) := by
  rw [@roundRat_of_near _ 7205759403792794 (-2)]
  all_goals norm_num

theorem threshold_le {x : ℚ} {a : Number} (enough : 41 / 100 ≤ x) (bound : (Number.finite x).le a = true) :
    (roundRat 0.4).le a = true := by
  rw [threshold]
  exact le_of_finite_le (le_trans (by norm_num) enough) bound

/-- With one loop found, a base and a step from these bounds on are enough for a finding. -/
theorem le_confidenceOf {base unit low step : ℚ} {count : Nat} (lowest : roundRat base = .finite low)
    (each : roundRat unit = .finite step) (large : 1 / 100 ≤ step)
    (enough : 41 / 100 ≤ 15 / 16 * (low + 15 / 16 * step)) (positive : 0 < count) :
    (roundRat 0.4).le (confidenceOf base unit count) = true := by
  have one_le : (1 : ℚ) ≤ count := by exact_mod_cast positive
  have least : step ≤ count * step := le_mul_of_one_le_left (by linarith) one_le
  have tiny := normal_small
  have scaled : (Number.finite (15 / 16 * step)).le (roundRat (count * step)) = true :=
    le_roundRat (by linarith) (by linarith)
  unfold confidenceOf
  rw [lowest, each]
  refine threshold_le (le_refl _) (le_min (decide_eq_true (by norm_num)) ?_)
  have product : (Number.finite (count : ℚ)).mul (.finite step) = roundRat (count * step) := rfl
  rw [product]
  cases rounded : roundRat (count * step) with
  | nan => rw [rounded] at scaled; cases scaled
  | infinite negative =>
    cases negative
    · rfl
    · rw [rounded] at scaled
      cases scaled
  | finite value =>
    rw [rounded] at scaled
    have bound : 15 / 16 * step ≤ value := of_decide_eq_true scaled
    exact le_roundRat (by linarith) (by linarith)

theorem alarms_crossContract (noCycles : findCycles graph = []) :
    Alarms (detectCrossContractReentrancy graph) ↔ crossContractCycles graph ≠ [] := by
  unfold detectCrossContractReentrancy
  rw [noCycles]
  cases crossContractCycles graph with
  | nil => simp [Alarms]
  | cons first rest =>
    have lowest : roundRat 0.5 = .finite (1 / 2) := by
      rw [@roundRat_of_near _ 4503599627370496 (-1)]
      all_goals norm_num
    have each : roundRat 0.15 = .finite (5404319552844595 / 36028797018963968) := by
      rw [@roundRat_of_near _ 5404319552844595 (-3)]
      all_goals norm_num
    have sure : (roundRat 0.4).le (confidenceOf 0.5 0.15 (first :: rest).length) = true := by
      refine le_confidenceOf lowest each ?_ ?_ (Nat.succ_pos _)
      all_goals norm_num
    simpa [Alarms] using sure

theorem alarms_multiStep (noCycles : findCycles graph = []) :
    Alarms (detectMultiStepReentrancy graph) ↔ multiStepCycles graph ≠ [] := by
  unfold detectMultiStepReentrancy
  rw [noCycles]
  cases multiStepCycles graph with
  | nil => simp [Alarms]
  | cons first rest =>
    have each : roundRat 0.1 = .finite (3602879701896397 / 36028797018963968) := by
      rw [@roundRat_of_near _ 7205759403792794 (-4)]
      all_goals norm_num
    have sure : (roundRat 0.4).le (confidenceOf 0.4 0.1 (first :: rest).length) = true := by
      refine le_confidenceOf threshold each ?_ ?_ (Nat.succ_pos _)
      all_goals norm_num
    simpa [Alarms] using sure

/-- The loop that `b` closes with a contract of the chain: its own caller, or one further up. -/
theorem crossContractCycles_ne_nil :
    crossContractCycles (buildCallGraph (calls.trace 0)) ≠ [] ↔ CrossEntered calls := by
  simp only [crossContractCycles, ne_eq, List.filter_eq_nil_iff, not_forall, not_not, decide_eq_true_eq,
    mem_findContractCycles]
  constructor
  · rintro ⟨cycle, ⟨below, t, enters, v, edge, member, closed⟩, two, -⟩
    obtain ⟨before, after, split, tail⟩ := DepthFirst.exists_tailFrom member
    rw [closed, tail] at two
    obtain ⟨x, rfl⟩ := List.length_eq_one_iff.mp (Nat.succ.inj two)
    have parted : below ++ [t] = (before ++ [v]) ++ [x] := by simpa using split
    obtain ⟨rfl, last⟩ := List.append_inj' parted rfl
    obtain rfl := List.cons.inj last |>.1
    exact ⟨before, v, t, enters, edge⟩
  · rintro ⟨below, a, b, enters, edge⟩
    have nodup := enters.nodup List.nodup_nil
    have fresh : a ∉ below := fun member =>
      List.disjoint_of_nodup_append (List.Nodup.of_append_left nodup) member (List.mem_singleton_self a)
    have differ : a ≠ b := by
      intro same
      exact (List.disjoint_of_nodup_append nodup) (List.mem_append_right _ (List.mem_singleton_self a))
        (List.mem_singleton.mpr same)
    have tail : DepthFirst.tailFrom (below ++ [a] ++ [b]) a = [a, b] := by
      rw [List.append_assoc]
      exact DepthFirst.tailFrom_split fresh
    refine ⟨[a, b], ⟨below ++ [a], b, enters, a, edge, by simp, tail.symm⟩, rfl, by simpa using differ⟩

theorem exists_last_two {after : List String} (long : 2 ≤ after.length) :
    ∃ others a b, after = others ++ [a, b] := by
  obtain rfl | ⟨front, b, rfl⟩ := List.eq_nil_or_concat after
  · cases long
  · obtain rfl | ⟨others, a, rfl⟩ := List.eq_nil_or_concat front
    · simp at long
    · exact ⟨others, a, b, by simp⟩

theorem multiStepCycles_ne_nil :
    multiStepCycles (buildCallGraph (calls.trace 0)) ≠ [] ↔ MultiEntered calls := by
  simp only [multiStepCycles, ne_eq, List.filter_eq_nil_iff, not_forall, not_not, decide_eq_true_eq,
    mem_findContractCycles]
  constructor
  · rintro ⟨cycle, ⟨below, t, enters, v, edge, member, closed⟩, long, -⟩
    obtain ⟨before, after, split, tail⟩ := DepthFirst.exists_tailFrom member
    rw [closed, tail, List.length_cons] at long
    obtain ⟨others, a, b, rfl⟩ := exists_last_two (by omega : 2 ≤ after.length)
    have parted : below ++ [t] = (before ++ v :: others ++ [a]) ++ [b] := by simpa using split
    obtain ⟨rfl, last⟩ := List.append_inj' parted rfl
    obtain rfl := List.cons.inj last |>.1
    exact ⟨before ++ v :: others, a, t, enters, v, by simp, edge⟩
  · rintro ⟨below, a, b, enters, c, member, edge⟩
    have nodup := enters.nodup List.nodup_nil
    obtain ⟨before, after, split, fresh⟩ := List.eq_append_cons_of_mem member
    have chain : below ++ [a] ++ [b] = before ++ c :: (after ++ [a, b]) := by simp [split]
    have tail : DepthFirst.tailFrom (below ++ [a] ++ [b]) c = c :: (after ++ [a, b]) := by
      rw [chain]
      exact DepthFirst.tailFrom_split fresh
    have distinct : (c :: (after ++ [a, b])).Nodup := (chain ▸ nodup).of_append_right
    refine ⟨c :: (after ++ [a, b]), ⟨below ++ [a], b, enters, c, edge, by simp [member], tail.symm⟩, by simp, ?_⟩
    rw [Ordered.ofList_of_nodup distinct]

/-- The search finds the loops of calls that it comes upon first, and may leave out others. -/
theorem loops_found_iff (calls : Calls) (txHash : String) (valueAtRisk : Option String)
    (usdValueAtRisk : Option Number) :
    let findings := detectReentrancy txHash (buildCallGraph (calls.trace 0)) valueAtRisk usdValueAtRisk
    (CrossReentrant calls → Reports findings .crossContract) ∧ (MultiReentrant calls → Reports findings .multiStep) ↔
      (CrossReentrant calls → CrossEntered calls) ∧ (MultiReentrant calls → MultiEntered calls) := by
  have cross : Reports (detectReentrancy txHash (buildCallGraph (calls.trace 0)) valueAtRisk usdValueAtRisk)
      .crossContract ↔ CrossEntered calls := by
    rw [reports_iff, ← crossContractCycles_ne_nil, ← alarms_crossContract (findCycles_trace calls)]
    simp [detectionPatterns]
  have multi : Reports (detectReentrancy txHash (buildCallGraph (calls.trace 0)) valueAtRisk usdValueAtRisk)
      .multiStep ↔ MultiEntered calls := by
    rw [reports_iff, ← multiStepCycles_ne_nil, ← alarms_multiStep (findCycles_trace calls)]
    simp [detectionPatterns]
  dsimp only
  rw [cross, multi]

/-- A call of the contract `contract`, the `callIndex`-th of the trace. -/
def plainCall (contract : String) (callIndex : Nat) : Invocation where
  contractId := contract
  functionName := "call"
  callIndex := callIndex
  preStateReads := none
  postStateWrites := none

/-- A calls C, which calls B; then A calls B, which calls A back. -/
def shadowedLoop : Calls :=
  .call (plainCall "A" 0)
    (.call (plainCall "C" 1) (.call (plainCall "B" 2) .none .none)
      (.call (plainCall "B" 3) (.call (plainCall "A" 4) .none .none) .none)) .none

/-- When the search comes to the callback it has B behind C, and reports the loop through C alone. -/
theorem shadowed_loop_missed : CrossReentrant shadowedLoop ∧
    ¬ Reports (detectReentrancy "tx" (buildCallGraph (shadowedLoop.trace 0)) none none) .crossContract := by
  refine ⟨⟨"A", "B", [], by decide, by decide⟩, fun ⟨finding, member, type⟩ => ?_⟩
  have types : (detectReentrancy "tx" (buildCallGraph (shadowedLoop.trace 0)) none none).map
      ReentrancyFinding.reentrancyType = [.simple, .multiStep] := by decide +kernel
  have listed := List.mem_map_of_mem (f := ReentrancyFinding.reentrancyType) member
  rw [types, type] at listed
  revert listed
  decide

/-- No contract is entered again before it has returned. -/
def Unentered (calls : Calls) : Prop := ∀ chain ∈ calls.chains [], chain.Nodup

/-- A contract that is called more than once in the transaction, nested or not. -/
def Repeats (calls : Calls) (contract : String) : Prop := 1 < calls.sequence.count contract

/-- `a` calls the other contract `b`. -/
def CallsTo (calls : Calls) (a b : String) : Prop := b ∈ calls.callees a

theorem eq_of_count_le {chains : List (List String)} {x : String} {left right : List String}
    (once : (chains.filterMap List.head?).count x ≤ 1) (first : x :: left ∈ chains) (second : x :: right ∈ chains) :
    left = right := by
  induction chains with
  | nil => cases first
  | cons chain rest ih =>
    have later {tail : List String} (member : x :: tail ∈ rest) : 0 < (rest.filterMap List.head?).count x :=
      List.count_pos_iff.mpr (List.mem_filterMap.mpr ⟨_, member, rfl⟩)
    rcases List.mem_cons.mp first with rfl | first <;> rcases List.mem_cons.mp second with same | second
    · exact (List.cons.inj same).2.symm
    · have := later second
      simp only [List.filterMap_cons, List.head?_cons, List.count_cons_self] at once
      omega
    · have := later first
      subst same
      simp only [List.filterMap_cons, List.head?_cons, List.count_cons_self] at once
      omega
    · refine ih (le_trans ?_ once) first second
      exact ((List.sublist_cons_self chain rest).filterMap List.head?).count_le x

theorem above_unique {x : String} {left right : List String} (once : ¬ Repeats calls x)
    (first : x :: left ∈ calls.chains []) (second : x :: right ∈ calls.chains []) : left = right :=
  eq_of_count_le (Nat.le_of_not_lt once) first second

/-- Along a walk through contracts that are called once, each call is made within the one before. -/
theorem no_walk_back (unentered : Unentered calls) {c : String}
    (once : ∀ y, y ≠ c → Relation.TransGen (CallsTo calls) c y → Relation.TransGen (CallsTo calls) y c →
      ¬ Repeats calls y) : ¬ Relation.TransGen (CallsTo calls) c c := by
  have within {x : String} (walk : Relation.TransGen (CallsTo calls) c x)
      (back : x = c ∨ Relation.TransGen (CallsTo calls) x c) :
      ∃ above, x :: above ∈ calls.chains [] ∧ c ∈ above := by
    induction walk with
    | single edge =>
      obtain ⟨-, above, member⟩ := Calls.mem_callees.mp edge
      exact ⟨c :: above, member, List.mem_cons_self⟩
    | @tail x y walk edge ih =>
      have returns : Relation.TransGen (CallsTo calls) x c := by
        rcases back with rfl | back
        · exact .single edge
        · exact .head edge back
      obtain ⟨around, nested, inside⟩ := ih (.inr returns)
      obtain ⟨-, above, member⟩ := Calls.mem_callees.mp edge
      by_cases same : x = c
      · subst same
        exact absurd inside (List.nodup_cons.mp (unentered _ nested)).1
      · have around_eq := above_unique (once x same walk returns) nested (Calls.caller_mem_chains member)
        exact ⟨x :: above, member, List.mem_cons_of_mem _ (around_eq ▸ inside)⟩
  intro walk
  obtain ⟨above, member, inside⟩ := within walk (.inl rfl)
  exact (List.nodup_cons.mp (unentered _ member)).1 inside

theorem calls_acyclic (unentered : Unentered calls) (alone : ∀ a b, Repeats calls a → Repeats calls b → a = b)
    (v : String) : ¬ Relation.TransGen (CallsTo calls) v v := by
  intro walk
  by_cases through : ∃ r, Repeats calls r ∧ Relation.TransGen (CallsTo calls) v r ∧
      Relation.TransGen (CallsTo calls) r v
  · -- the one contract that is called more than once lies on the loop: go round from there
    obtain ⟨r, repeats, there, back⟩ := through
    exact no_walk_back unentered (fun y other _ _ again => other (alone y r again repeats)) (back.trans there)
  · exact no_walk_back unentered (fun y _ there back again => through ⟨y, again, there, back⟩) walk

theorem findContractCycles_eq_nil (unentered : Unentered calls)
    (alone : ∀ a b, Repeats calls a → Repeats calls b → a = b) :
    findContractCycles (buildCallGraph (calls.trace 0)) = [] := by
  obtain ⟨keys, adjacent⟩ := buildContractAdjacency_trace calls
  rw [findContractCycles, cyclesOf, keys, funext adjacent]
  exact DepthFirst.run_cycles_eq_nil (fun v _ w edge => (Calls.caller_mem_contracts edge).2)
    (calls_acyclic unentered alone)

theorem selfCalls_eq_nil (unentered : Unentered calls) : selfCalls (buildCallGraph (calls.trace 0)) = [] := by
  obtain ⟨links, -, edges, pairs, known⟩ := buildCallGraph_trace calls
  refine List.filterMap_eq_nil_iff.mpr fun edge member => ?_
  rw [edges] at member
  obtain ⟨link, linked, rfl⟩ := List.mem_map.mp member
  simp only [(known link linked).1, (known link linked).2]
  refine if_neg fun ⟨same, _⟩ => ?_
  have pair := List.mem_map_of_mem (f := fun link : CallGraphVertex × CallGraphVertex =>
    (link.1.contractAddress, link.2.contractAddress)) linked
  rw [pairs, List.mem_filterMap] at pair
  obtain ⟨chain, inside, last⟩ := pair
  obtain ⟨above, rfl⟩ := Calls.lastCall_eq_some.mp last
  exact (List.nodup_cons.mp (unentered _ inside)).1 (same ▸ List.mem_cons_self)

theorem foldl_count (vertices : List CallGraphVertex) (count : Nat) :
    vertices.foldl (fun count _ => count + 1) count = count + vertices.length := by
  induction vertices generalizing count with
  | nil => rfl
  | cons v rest ih =>
    rw [List.foldl_cons, ih, List.length_cons]
    omega

theorem contractCounts_getD (calls : Calls) (contract : String) :
    ((contractCounts (buildCallGraph (calls.trace 0))).get contract).getD 0 = calls.sequence.count contract := by
  obtain ⟨links, vertices, -⟩ := buildCallGraph_trace calls
  rw [contractCounts, OrderedMap.getD_foldl_update, foldl_count, ← vertices, List.count, List.countP_map,
    List.countP_eq_length_filter]
  exact Nat.zero_add _

theorem repeats_of_mem {contract : String} {count : Nat}
    (member : (contract, count) ∈ repeated (buildCallGraph (calls.trace 0))) : Repeats calls contract := by
  obtain ⟨stored, many⟩ := List.mem_filter.mp member
  have counted := contractCounts_getD calls contract
  rw [OrderedMap.mem_entries.mp stored, Option.getD_some] at counted
  unfold Repeats
  rw [← counted]
  exact of_decide_eq_true many

theorem exists_mem_repeated {contract : String} (repeats : Repeats calls contract) :
    ∃ count, (contract, count) ∈ repeated (buildCallGraph (calls.trace 0)) := by
  have counted := contractCounts_getD calls contract
  unfold Repeats at repeats
  cases stored : (contractCounts (buildCallGraph (calls.trace 0))).get contract with
  | none =>
    rw [stored, Option.getD_none] at counted
    omega
  | some count =>
    rw [stored, Option.getD_some] at counted
    exact ⟨count, List.mem_filter.mpr ⟨OrderedMap.mem_entries.mpr stored, decide_eq_true (by omega)⟩⟩

/-- The pattern A → A counts the contracts that are called more than once. -/
theorem repeated_length_le_one : (repeated (buildCallGraph (calls.trace 0))).length ≤ 1 ↔
    ∀ a b, Repeats calls a → Repeats calls b → a = b := by
  have distinct : ((repeated (buildCallGraph (calls.trace 0))).map Prod.fst).Nodup :=
    (List.filter_sublist.map _).nodup (contractCounts (buildCallGraph (calls.trace 0))).nodup
  constructor
  · intro short a b first second
    obtain ⟨countA, memberA⟩ := exists_mem_repeated first
    obtain ⟨countB, memberB⟩ := exists_mem_repeated second
    obtain ⟨pair, single⟩ | empty : (∃ pair, repeated (buildCallGraph (calls.trace 0)) = [pair]) ∨
        repeated (buildCallGraph (calls.trace 0)) = [] := by
      rcases Nat.le_one_iff_eq_zero_or_eq_one.mp short with none | one
      · exact .inr (List.length_eq_zero_iff.mp none)
      · exact .inl (List.length_eq_one_iff.mp one)
    · rw [single] at memberA memberB
      exact congrArg Prod.fst ((List.mem_singleton.mp memberA).trans (List.mem_singleton.mp memberB).symm)
    · rw [empty] at memberA
      cases memberA
  · intro alone
    cases listed : repeated (buildCallGraph (calls.trace 0)) with
    | nil => exact Nat.zero_le 1
    | cons first rest =>
      cases rest with
      | nil => exact Nat.le_refl 1
      | cons second rest =>
        have firstRepeats := repeats_of_mem (listed ▸ List.mem_cons_self)
        have secondRepeats := repeats_of_mem (listed ▸ List.mem_cons_of_mem _ List.mem_cons_self)
        rw [listed] at distinct
        have same := alone first.1 second.1 firstRepeats secondRepeats
        simp [same] at distinct

theorem alarms_simple (noSelfCalls : selfCalls graph = []) :
    Alarms (detectSimpleReentrancy graph) ↔ 1 < (repeated graph).length := by
  unfold detectSimpleReentrancy
  rw [noSelfCalls]
  have each : roundRat 0.35 = .finite (3152519739159347 / 9007199254740992) := by
    rw [@roundRat_of_near _ 6305039478318694 (-2)]
    all_goals norm_num
  simp only [List.length_nil, Nat.zero_add, true_and]
  generalize length : (repeated graph).length = count
  rcases Nat.lt_or_ge 1 count with many | few
  · rw [if_neg (by omega)]
    have two_le : (2 : ℚ) ≤ count := by exact_mod_cast many
    have tiny := normal_small
    have sure : (roundRat 0.4).le
        ((Number.finite 1).min ((Number.finite (count : ℚ)).mul (roundRat 0.35))) = true := by
      refine threshold_le (le_refl _) (le_min (decide_eq_true (by norm_num)) ?_)
      rw [each]
      exact le_roundRat (by linarith) (by linarith)
    simpa [Alarms, many] using sure
  · rcases Nat.le_one_iff_eq_zero_or_eq_one.mp few with rfl | rfl
    · simp [Alarms]
    · have unsure : (roundRat 0.4).le ((Number.finite 1).min ((Number.finite 1).mul (roundRat 0.35))) = false := by
        decide +kernel
      simpa [Alarms] using unsure

theorem not_alarms_none : ¬ Alarms none := by simp [Alarms]

/-- All patterns but the first look for cycles. -/
theorem undetected_of_no_cycles (noLoops : findContractCycles graph = []) (noCycles : findCycles graph = []) :
    detectCrossContractReentrancy graph = none ∧ detectMultiStepReentrancy graph = none ∧
      detectReadOnlyReentrancy graph = none ∧ detectCrossFunctionReentrancy graph = none ∧
      detectDestructiveReentrancy graph = none := by
  refine ⟨?_, ?_, ?_, ?_, ?_⟩
  · simp [detectCrossContractReentrancy, crossContractCycles, noLoops, noCycles]
  · simp [detectMultiStepReentrancy, multiStepCycles, noLoops, noCycles]
  · simp [detectReadOnlyReentrancy, noLoops]
  · simp [detectCrossFunctionReentrancy, noLoops, noCycles]
  · simp [detectDestructiveReentrancy, noLoops, noCycles]

/-- Where no contract is re-entered, what is reported is that several contracts are called again. -/
theorem silent_iff (calls : Calls) (unentered : Unentered calls) (txHash : String) (valueAtRisk : Option String)
    (usdValueAtRisk : Option Number) :
    detectReentrancy txHash (buildCallGraph (calls.trace 0)) valueAtRisk usdValueAtRisk = [] ↔
      ∀ a b, Repeats calls a → Repeats calls b → a = b := by
  have simple := alarms_simple (selfCalls_eq_nil unentered)
  rw [detectReentrancy_eq_nil]
  constructor
  · intro quiet
    have unalarmed := quiet _ List.mem_cons_self
    exact repeated_length_le_one.mp (Nat.le_of_not_lt fun many => unalarmed (simple.mpr many))
  · intro alone
    have few : ¬ Alarms (detectSimpleReentrancy (buildCallGraph (calls.trace 0))) := fun alarms =>
      Nat.not_lt.mpr (repeated_length_le_one.mpr alone) (simple.mp alarms)
    obtain ⟨cross, multi, readOnly, crossFunction, destructive⟩ :=
      undetected_of_no_cycles (findContractCycles_eq_nil unentered alone) (findCycles_trace calls)
    simp only [detectionPatterns, List.forall_mem_cons, cross, multi, readOnly, crossFunction, destructive]
    exact ⟨few, not_alarms_none, not_alarms_none, not_alarms_none, not_alarms_none, not_alarms_none,
      List.forall_mem_nil _⟩

/-- A calls B twice, one call after the other. -/
def twoCalls : Calls :=
  .call (plainCall "A" 0) (.call (plainCall "B" 1) .none (.call (plainCall "B" 2) .none .none)) .none

theorem two_calls_silent : detectReentrancy "tx" (buildCallGraph (twoCalls.trace 0)) none none = [] := by
  have once : ∀ c, Repeats twoCalls c → c = "B" := by
    intro c repeats
    by_contra other
    have counted : twoCalls.sequence.count c ≤ 1 := by
      simp [Calls.sequence, twoCalls, Calls.chains, plainCall, List.count_cons, Ne.symm other]
      split <;> omega
    exact absurd repeats (Nat.not_lt.mpr counted)
  refine (silent_iff twoCalls ?_ "tx" none none).mpr fun a b first second => (once a first).trans (once b second).symm
  unfold Unentered
  decide

/-- A calls B twice and C twice. -/
def fourCalls : Calls :=
  .call (plainCall "A" 0)
    (.call (plainCall "B" 1) .none
      (.call (plainCall "B" 2) .none
        (.call (plainCall "C" 3) .none
          (.call (plainCall "C" 4) .none .none)))) .none

theorem plain_calls_alarm : Unentered fourCalls ∧
    detectReentrancy "tx" (buildCallGraph (fourCalls.trace 0)) none none ≠ [] := by
  constructor
  · unfold Unentered
    decide
  · intro silent
    have types : (detectReentrancy "tx" (buildCallGraph (fourCalls.trace 0)) none none).map
        ReentrancyFinding.reentrancyType = [.simple] := by decide +kernel
    rw [silent] at types
    cases types

end Octraban.Reentrancy
