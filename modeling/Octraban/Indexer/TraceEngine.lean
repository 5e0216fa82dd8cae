import Octraban.Core.Brackets
import Octraban.Core.JavaScript
import Octraban.Core.OrderedMap
import Octraban.Core.Partial

/-! trace-engine.ts and call-trace.ts: steps, depths and the call graph of diagnostic events. -/
namespace Octraban.Trace
open JavaScript Brackets

/-- What a decoded value is: a text, or what `String(value)` makes of it unless it throws. -/
inductive Value where
  | text (content : String)
  | other (string : Option String)

structure TraceArg where
  type : String
  value : Value

/-- The id is the encoded one. -/
structure DiagnosticEvent (V : Type) where
  inSuccessfulContractCall : Bool
  contractId : Option String
  type : String
  topics : List V
  data : Option V

structure StateChange where
  key : String
  before : Option Value
  after : Option Value
  changeType : String

structure TraceStep where
  seq : Nat
  depth : Nat
  type : String
  function : String
  args : List TraceArg
  gasUsed : Number
  memUsed : Number
  stateChanges : List StateChange
  returnValue : Option TraceArg

structure CallGraphNode where
  id : String
  contract : String
  function : String
  gas : Number
  depth : Nat

structure CallGraphEdge where
  fromNode : String
  toNode : String
  type : String

structure CallGraph where
  nodes : List CallGraphNode
  edges : List CallGraphEdge

structure TraceResult where
  steps : List TraceStep
  totalGas : Number
  totalMemory : Number
  callGraph : CallGraph

inductive TraceLevel where
  | full
  | calls_only
  | state_changes_only
  deriving DecidableEq

/-- Decoders of both files: `decodeScVal`, the texts of `decodeTopics`, `decodeData`, and
`JSON.stringify`, which throws (`none`) or may give `undefined`. -/
structure Decoders (V : Type) where
  decodeScVal : V → TraceArg
  native : V → String
  decodeData : V → Value
  stringify : Value → Option (Option String)

/-- The mark of a topic. -/
def markOf (topic : String) : Mark :=
  if topic = "fn_call" then .opening else if topic = "fn_return" then .closing else .plain

def Value.string : Value → Option String
  | text content => some content
  | other string => string

variable {V : Type}

section
variable (decoders : Decoders V)

def contractOf (event : DiagnosticEvent V) : String := event.contractId.getD "system"

def topicOf (event : DiagnosticEvent V) : Option String :=
  match event.topics with
  | first :: _ => (decoders.decodeScVal first).value.string
  | [] => some event.type

def restArgs (event : DiagnosticEvent V) : List TraceArg := (event.topics.drop 1).map decoders.decodeScVal

def inferFunctionName (topic : String) (topicArgs : List TraceArg) : String :=
  if topic = "fn_call" then
    match topicArgs with
    | ⟨_, .text name⟩ :: _ => name
    | _ => "call"
  else if topic = "fn_return" then "return"
  else topic

def functionOf (topic : String) (event : DiagnosticEvent V) : String := inferFunctionName topic (restArgs decoders event)

/-- `inferDepth`: the depth of an event, and the stack after it. -/
def inferDepth {A : Type} (topic : String) (entry : A) (depthStack : List A) : Nat × List A :=
  if topic = "fn_call" then (depthStack.length, entry :: depthStack)
  else if topic = "fn_return" then
    match depthStack with
    | _ :: rest => (rest.length, rest)
    | [] => (0, [])
  else (depthStack.length, depthStack)

def isStorage (topic : String) : Bool := topic ∈ ["storage_put", "storage_del", "storage_get"]

def stateChangesOf (topic : String) (event : DiagnosticEvent V) : Option (List StateChange) :=
  match event.data with
  | some data =>
    if isStorage topic then
      let decoded := decoders.decodeScVal data
      (decoders.stringify decoded.value).map fun json =>
        [{ key := contractOf event ++ ":" ++ json.getD "undefined"
           before := none
           after := if topic = "storage_del" then none else some decoded.value
           changeType := if topic = "storage_del" then "delete" else if topic = "storage_get" then "read" else "write" }]
    else some []
  | none => some []

def isCallStep (topic : String) : Bool := topic = "fn_call" ∨ topic = "fn_return"

/-- Whether the level leaves an event out. -/
def filtered (traceLevel : TraceLevel) (topic : String) (stateChanges : List StateChange) : Bool :=
  (traceLevel = .calls_only ∧ ¬ isCallStep topic) ∨ (traceLevel = .state_changes_only ∧ stateChanges.isEmpty ∧ ¬ isCallStep topic)

def stepOf (cpuPerStep memPerStep : Number) (topic : String) (stateChanges : List StateChange) (event : DiagnosticEvent V)
    (i depth : Nat) : TraceStep :=
  { seq := i
    depth
    type := if stateChanges.isEmpty then (if isCallStep topic then "host_function" else "event") else "state_change"
    function := functionOf decoders topic event
    args := if topic = "fn_call" then (restArgs decoders event).drop 1 else restArgs decoders event
    gasUsed := cpuPerStep.mul (.finite (i + 1))
    memUsed := memPerStep.mul (.finite (i + 1))
    stateChanges
    returnValue := if topic = "fn_return" then event.data.map decoders.decodeScVal else none }

/-- What the loop keeps. -/
structure Tracing where
  steps : List TraceStep
  depthStack : List String
  nodeMap : OrderedMap String CallGraphNode
  edges : List CallGraphEdge
  nodeCounter : Nat
  prevNodeId : Option String

def nodeId (n : Nat) : String := String.ofList (decimal n)

def nodeKey (node : CallGraphNode) : String := node.contract ++ ":" ++ node.function ++ ":" ++ String.ofList (decimal node.depth)

def callNode (cpuPerStep : Number) (event : DiagnosticEvent V) (n depth : Nat) : CallGraphNode where
  id := nodeId n
  contract := contractOf event
  function := functionOf decoders "fn_call" event
  gas := cpuPerStep
  depth := depth

/-- A node for a call, and an edge from the call before. -/
def addCall (cpuPerStep : Number) (event : DiagnosticEvent V) (depth : Nat) (state : Tracing) : Tracing :=
  let node := callNode decoders cpuPerStep event (state.nodeCounter + 1) depth
  { state with
    nodeMap := state.nodeMap.set (nodeKey node) node
    edges := state.edges ++ (state.prevNodeId.map fun previous => ⟨previous, node.id, "call"⟩).toList
    nodeCounter := state.nodeCounter + 1
    prevNodeId := some node.id }

/-- What the loop does with an event that is read. -/
def place (traceLevel : TraceLevel) (cpuPerStep memPerStep : Number) (state : Tracing) (entry : DiagnosticEvent V × Nat) (topic : String)
    (stateChanges : List StateChange) : Tracing :=
  let inferred := inferDepth topic (contractOf entry.1 ++ ":" ++ functionOf decoders topic entry.1) state.depthStack
  let deeper := { state with depthStack := inferred.2 }
  if filtered traceLevel topic stateChanges then deeper
  else
    let step := stepOf decoders cpuPerStep memPerStep topic stateChanges entry.1 entry.2 inferred.1
    let stepped := { deeper with steps := state.steps ++ [step] }
    if topic = "fn_call" then addCall decoders cpuPerStep entry.1 inferred.1 stepped else stepped

/-- One event; the loop ends where its topic or its data throws. -/
def look (traceLevel : TraceLevel) (cpuPerStep memPerStep : Number) (state : Tracing) (entry : DiagnosticEvent V × Nat) : Option Tracing :=
  (topicOf decoders entry.1).bind fun topic =>
    (stateChangesOf decoders topic entry.1).map (place decoders traceLevel cpuPerStep memPerStep state entry topic)

def started : Tracing := ⟨[], [], OrderedMap.empty, [], 0, none⟩

/-- `Math.round(total / n)` of so many events. -/
def perStep (total : Number) (events : Nat) : Number := (total.div (.finite (if events = 0 then 1 else events))).round

def buildTrace (diagnosticEvents : Option (List (DiagnosticEvent V))) (totalCpu totalMem : Number) (traceLevel : TraceLevel) :
    Option TraceResult :=
  let events := diagnosticEvents.getD []
  let traced := events.zipIdx.foldlM (look decoders traceLevel (perStep totalCpu events.length) (perStep totalMem events.length)) started
  traced.map fun state =>
    { steps := state.steps
      totalGas := totalCpu
      totalMemory := totalMem
      callGraph := { nodes := state.nodeMap.entries.map Prod.snd, edges := state.edges } }

/-! ### parseCallTrace -/

structure CallTraceNode where
  seq : Nat
  depth : Nat
  contractId : String
  eventType : String
  topic : String
  topicArgs : List String
  data : Option Value
  inSuccessfulCall : Bool
  cpuDelta : Option Number
  memDelta : Option Number
  label : String

structure CallTrace where
  events : List CallTraceNode
  contractsInvolved : List String
  maxDepth : Nat

def nativeTopicOf (event : DiagnosticEvent V) : String := ((event.topics.map decoders.native).head?).getD event.type

/-- `JSON.stringify(data)`, where no data is `null`. -/
def stringifyData : Option Value → Option (Option String)
  | some data => decoders.stringify data
  | none => some (some "null")

def buildLabel (contractId topic : String) (topicArgs : List String) (data : Option Value) : Option String :=
  let short := String.ofList (contractId.toList.take 8) ++ "…"
  if topic = "fn_call" then
    some ("→ [" ++ short ++ "] call " ++ topicArgs.head?.getD "" ++ "(" ++ ", ".intercalate (topicArgs.drop 1) ++ ")")
  else if topic = "fn_return" then
    (stringifyData decoders data).map fun json => "← [" ++ short ++ "] return " ++ json.getD ""
  else if topic = "transfer" then
    (stringifyData decoders data).map fun json =>
      "[" ++ short ++ "] transfer " ++ " → ".intercalate topicArgs ++ " amount=" ++ json.getD "undefined"
  else some ("[" ++ short ++ "] " ++ topic ++ "(" ++ ", ".intercalate topicArgs ++ ")")

structure Parsing where
  events : List CallTraceNode
  contractsSet : List String
  depthStack : List String
  maxDepth : Nat

/-- One event; the loop ends where its label throws. -/
def parse (cpuPerEvent memPerEvent : Option Number) (state : Parsing) (entry : DiagnosticEvent V × Nat) : Option Parsing :=
  let topic := nativeTopicOf decoders entry.1
  let topicArgs := (entry.1.topics.map decoders.native).drop 1
  let data := entry.1.data.map decoders.decodeData
  let inferred := inferDepth topic "fn_call" state.depthStack
  (buildLabel decoders (contractOf entry.1) topic topicArgs data).map fun label =>
    { events := state.events ++
        [{ seq := entry.2
           depth := inferred.1
           contractId := contractOf entry.1
           eventType := entry.1.type
           topic
           topicArgs
           data
           inSuccessfulCall := entry.1.inSuccessfulContractCall
           cpuDelta := cpuPerEvent.map fun cpu => cpu.mul (.finite (entry.2 + 1))
           memDelta := memPerEvent.map fun mem => mem.mul (.finite (entry.2 + 1))
           label }]
      contractsSet := Ordered.add state.contractsSet (contractOf entry.1)
      depthStack := inferred.2
      maxDepth := max state.maxDepth inferred.1 }

def perEvent (total : Option Number) (events : Nat) : Option Number :=
  if 0 < events then total.map fun t => (t.div (.finite events)).round else none

def parseCallTrace (diagnosticEvents : List (DiagnosticEvent V)) (totalCpuInsns totalMemBytes : Option Number) : Option CallTrace :=
  let n := diagnosticEvents.length
  let parsed := diagnosticEvents.zipIdx.foldlM (parse decoders (perEvent totalCpuInsns n) (perEvent totalMemBytes n)) ⟨[], [], [], 0⟩
  parsed.map fun state =>
    { events := state.events, contractsInvolved := state.contractsSet.filter (· ≠ "system"), maxDepth := state.maxDepth }

/-! ### The tree of calls -/

/-- How `buildTrace` reads an event. -/
def traced (event : DiagnosticEvent V) : Mark := ((topicOf decoders event).map markOf).getD .plain

/-- How `parseCallTrace` reads it. -/
def parsed (event : DiagnosticEvent V) : Mark := markOf (nativeTopicOf decoders event)

/-- A call and a return are those for both readers of their topics, and other events for neither. -/
structure Bracketed (forest : Forest (DiagnosticEvent V)) : Prop where
  tracedMarks : forest.Marked (traced decoders)
  parsedMarks : forest.Marked (parsed decoders)

def treeNodes (forest : Forest (DiagnosticEvent V)) (cpuPerStep : Number) : List CallGraphNode :=
  (forest.openings 0).zipIdx.map fun entry => callNode decoders cpuPerStep entry.1.1 (entry.2 + 1) entry.1.2

def callEdge (edge : Nat × Nat) : CallGraphEdge := ⟨nodeId edge.1, nodeId edge.2, "call"⟩

def treeEdges (forest : Forest (DiagnosticEvent V)) : List CallGraphEdge := (forest.edges none 0).map callEdge

/-- One node for each call, and one edge to it from the call that encloses it. -/
structure IsTree (forest : Forest (DiagnosticEvent V)) (cpuPerStep : Number) (graph : CallGraph) : Prop where
  nodes : graph.nodes.Perm (treeNodes decoders forest cpuPerStep)
  edges : graph.edges.Perm (treeEdges forest)
  endpoints : ∀ edge ∈ graph.edges, (∃ node ∈ graph.nodes, node.id = edge.fromNode) ∧ ∃ node ∈ graph.nodes, node.id = edge.toNode

/-- The step of an event is there, with this depth. -/
def StepDepth (steps : List TraceStep) (i depth : Nat) : Prop :=
  (∃ step ∈ steps, step.seq = i) ∧ ∀ step ∈ steps, step.seq = i → step.depth = depth

/-- A call and its return have one depth. -/
def OneDepth (result : TraceLevel → TraceResult) (callTrace : CallTrace) (span : Nat × Nat) : Prop :=
  ∃ d, (∀ traceLevel, StepDepth (result traceLevel).steps span.1 d ∧ StepDepth (result traceLevel).steps span.2 d) ∧
    callTrace.events[span.1]?.map CallTraceNode.depth = some d ∧ callTrace.events[span.2]?.map CallTraceNode.depth = some d

/-- Every level gives the tree of the calls. -/
def IsCallTree (forest : Forest (DiagnosticEvent V)) (totalCpu totalMem : Number) (cpuInsns memBytes : Option Number) : Prop :=
  ∃ result callTrace, (∀ traceLevel, buildTrace decoders (some forest.word) totalCpu totalMem traceLevel = some (result traceLevel)) ∧
    parseCallTrace decoders forest.word cpuInsns memBytes = some callTrace ∧
    (∀ traceLevel, IsTree decoders forest (perStep totalCpu forest.word.length) (result traceLevel).callGraph) ∧
    (∀ traceLevel, (result traceLevel).callGraph = (result .full).callGraph) ∧
    ∀ span ∈ forest.spans, OneDepth result callTrace span

/-- Neither `String` nor `JSON.stringify` throws on what is made a text of. -/
structure Renders (event : DiagnosticEvent V) : Prop where
  topic : ∀ first ∈ event.topics.head?, (decoders.decodeScVal first).value.string ≠ none
  storage : ∀ topic ∈ topicOf decoders event, isStorage topic → ∀ data ∈ event.data, decoders.stringify (decoders.decodeScVal data).value ≠ none
  label : nativeTopicOf decoders event = "fn_return" ∨ nativeTopicOf decoders event = "transfer" →
    ∀ data ∈ event.data, decoders.stringify (decoders.decodeData data) ≠ none

end

variable {decoders : Decoders V} {traceLevel : TraceLevel} {cpuPerStep memPerStep : Number} {state next final : Tracing}
  {event : DiagnosticEvent V} {forest : Forest (DiagnosticEvent V)} {offset depth : Nat}

theorem markOf_eq_opening {topic : String} : markOf topic = .opening ↔ topic = "fn_call" := by
  rw [markOf]
  split
  · exact iff_of_true rfl ‹_›
  · split <;> exact iff_of_false (by decide) ‹_›

theorem markOf_eq_plain {topic : String} : markOf topic = .plain ↔ isCallStep topic = false := by
  rw [markOf, isCallStep, decide_eq_false_iff_not]
  split
  · exact iff_of_false (by decide) fun neither => neither (.inl ‹_›)
  · split
    · exact iff_of_false (by decide) fun neither => neither (.inr ‹_›)
    · exact iff_of_true rfl (not_or.mpr ⟨‹_›, ‹_›⟩)

/-- The depth of an event, with those of what follows. -/
theorem depths_inferDepth {A : Type} (topic : String) (entry : A) (depthStack : List A) (rest : List Mark) :
    depths (markOf topic :: rest) depthStack.length =
      (inferDepth topic entry depthStack).1 :: depths rest (inferDepth topic entry depthStack).2.length := by
  by_cases call : topic = "fn_call"
  · simp [markOf, inferDepth, call, depths]
  · by_cases result : topic = "fn_return"
    · cases depthStack <;> simp [markOf, inferDepth, result, depths]
    · simp [markOf, inferDepth, call, result, depths]

/-! ### One event -/

/-- What an event adds to the state. -/
theorem look_cases {entry : DiagnosticEvent V × Nat} (looked : look decoders traceLevel cpuPerStep memPerStep state entry = some next) :
    ∃ topic stateChanges, topicOf decoders entry.1 = some topic ∧ traced decoders entry.1 = markOf topic ∧
      stateChangesOf decoders topic entry.1 = some stateChanges ∧
      next = place decoders traceLevel cpuPerStep memPerStep state entry topic stateChanges := by
  obtain ⟨topic, read, changed⟩ := Option.bind_eq_some_iff.mp looked
  obtain ⟨stateChanges, changes, rfl⟩ := Option.map_eq_some_iff.mp changed
  refine ⟨topic, stateChanges, read, ?_, changes, rfl⟩
  rw [traced, read]
  rfl

theorem depthStack_place {entry : DiagnosticEvent V × Nat} {topic : String} {stateChanges : List StateChange} :
    (place decoders traceLevel cpuPerStep memPerStep state entry topic stateChanges).depthStack =
      (inferDepth topic (contractOf entry.1 ++ ":" ++ functionOf decoders topic entry.1) state.depthStack).2 := by
  rw [place]
  split
  · rfl
  · split <;> rfl

/-- No level leaves calls and returns out. -/
theorem filtered_of_call {topic : String} (call : markOf topic ≠ .plain) (stateChanges : List StateChange) :
    filtered traceLevel topic stateChanges = false := by
  have kept : isCallStep topic = true := by
    rw [← Bool.not_eq_false, ← markOf_eq_plain]
    exact call
  simp [filtered, kept]

/-! ### What throws -/

theorem isSome_stateChangesOf {topic : String} :
    (stateChangesOf decoders topic event).isSome ↔
      (isStorage topic → ∀ data ∈ event.data, decoders.stringify (decoders.decodeScVal data).value ≠ none) := by
  rw [stateChangesOf]
  cases event.data with
  | none => exact iff_of_true rfl fun _ data member => nomatch member
  | some data =>
    dsimp only
    split
    · rename_i storage
      rw [Option.isSome_map, Option.isSome_iff_ne_none]
      exact ⟨fun found _ other same => Option.some.inj same ▸ found, fun found => found storage data rfl⟩
    · rename_i other
      exact iff_of_true rfl fun storage => absurd storage other

theorem isSome_topicOf : (topicOf decoders event).isSome ↔ ∀ first ∈ event.topics.head?, (decoders.decodeScVal first).value.string ≠ none := by
  rw [topicOf]
  cases event.topics with
  | nil => exact iff_of_true rfl fun first member => nomatch member
  | cons first rest =>
    rw [Option.isSome_iff_ne_none]
    exact ⟨fun found other same => Option.some.inj same ▸ found, fun found => found first rfl⟩

theorem isSome_look (entry : DiagnosticEvent V × Nat) :
    (look decoders traceLevel cpuPerStep memPerStep state entry).isSome ↔
      (∀ first ∈ entry.1.topics.head?, (decoders.decodeScVal first).value.string ≠ none) ∧
        ∀ topic ∈ topicOf decoders entry.1, isStorage topic →
          ∀ data ∈ entry.1.data, decoders.stringify (decoders.decodeScVal data).value ≠ none := by
  rw [← isSome_topicOf, look]
  cases read : topicOf decoders entry.1 with
  | none => exact iff_of_false Bool.false_ne_true fun both => Bool.false_ne_true both.1
  | some topic =>
    rw [Option.bind_some, Option.isSome_map, isSome_stateChangesOf]
    exact ⟨fun found => ⟨rfl, fun other same => Option.some.inj same ▸ found⟩, fun found => found.2 topic rfl⟩

theorem isSome_stringifyData (data : Option V) :
    (stringifyData decoders (data.map decoders.decodeData)).isSome ↔ ∀ d ∈ data, decoders.stringify (decoders.decodeData d) ≠ none := by
  cases data with
  | none => exact iff_of_true rfl fun d member => nomatch member
  | some data =>
    rw [Option.map_some, stringifyData, Option.isSome_iff_ne_none]
    exact ⟨fun found other same => Option.some.inj same ▸ found, fun found => found data rfl⟩

theorem isSome_parse {cpuPerEvent memPerEvent : Option Number} (state : Parsing) (entry : DiagnosticEvent V × Nat) :
    (parse decoders cpuPerEvent memPerEvent state entry).isSome ↔
      (nativeTopicOf decoders entry.1 = "fn_return" ∨ nativeTopicOf decoders entry.1 = "transfer" →
        ∀ data ∈ entry.1.data, decoders.stringify (decoders.decodeData data) ≠ none) := by
  rw [parse, Option.isSome_map, buildLabel, ← isSome_stringifyData]
  split
  · rename_i call
    rw [call]
    exact iff_of_true rfl (by simp)
  · split
    · rename_i result
      rw [Option.isSome_map]
      exact ⟨fun found _ => found, fun found => found (.inl result)⟩
    · split
      · rename_i transfer
        rw [Option.isSome_map]
        exact ⟨fun found _ => found, fun found => found (.inr transfer)⟩
      · rename_i result transfer
        exact iff_of_true rfl fun either => (either.elim result transfer).elim

/-! ### Steps -/

/-- The step of an event that the level keeps. -/
def keptStep (decoders : Decoders V) (traceLevel : TraceLevel) (cpuPerStep memPerStep : Number) (event : DiagnosticEvent V)
    (i depth : Nat) : Option TraceStep :=
  (topicOf decoders event).bind fun topic => (stateChangesOf decoders topic event).bind fun stateChanges =>
    if filtered traceLevel topic stateChanges then none else some (stepOf decoders cpuPerStep memPerStep topic stateChanges event i depth)

theorem keptStep_eq_some {step : TraceStep} {i : Nat}
    (kept : keptStep decoders traceLevel cpuPerStep memPerStep event i depth = some step) : step.seq = i ∧ step.depth = depth := by
  obtain ⟨topic, -, changed⟩ := Option.bind_eq_some_iff.mp kept
  obtain ⟨stateChanges, -, kept⟩ := Option.bind_eq_some_iff.mp changed
  split at kept
  · cases kept
  · obtain rfl := Option.some.inj kept
    exact ⟨rfl, rfl⟩

/-- A call and a return have a step. -/
theorem isSome_keptStep {i : Nat} (looked : look decoders traceLevel cpuPerStep memPerStep state (event, i) = some next)
    (call : traced decoders event ≠ .plain) (depth : Nat) :
    (keptStep decoders traceLevel cpuPerStep memPerStep event i depth).isSome := by
  obtain ⟨topic, stateChanges, read, marked, changes, -⟩ := look_cases looked
  rw [keptStep, read, Option.bind_some, changes, Option.bind_some, filtered_of_call (marked ▸ call)]
  rfl

theorem steps_look {entry : DiagnosticEvent V × Nat} (looked : look decoders traceLevel cpuPerStep memPerStep state entry = some next)
    (rest : List Mark) :
    ∃ depth, depths (traced decoders entry.1 :: rest) state.depthStack.length = depth :: depths rest next.depthStack.length ∧
      next.steps = state.steps ++ (keptStep decoders traceLevel cpuPerStep memPerStep entry.1 entry.2 depth).toList := by
  obtain ⟨topic, stateChanges, read, marked, changes, rfl⟩ := look_cases looked
  refine ⟨(inferDepth topic (contractOf entry.1 ++ ":" ++ functionOf decoders topic entry.1) state.depthStack).1, ?_, ?_⟩
  · rw [marked, depthStack_place]
    exact depths_inferDepth topic _ state.depthStack rest
  · rw [keptStep, read, Option.bind_some, changes, Option.bind_some, place]
    by_cases left_out : filtered traceLevel topic stateChanges = true
    · rw [if_pos left_out, if_pos left_out]
      exact (List.append_nil _).symm
    · rw [if_neg left_out, if_neg left_out]
      split <;> rfl

/-- The steps of a run: those of the events that the level keeps, at their depths. -/
theorem steps_run {events : List (DiagnosticEvent V)}
    (ran : (events.zipIdx offset).foldlM (look decoders traceLevel cpuPerStep memPerStep) state = some final) :
    final.steps = state.steps ++
      ((events.zipIdx offset).zip (depths (events.map (traced decoders)) state.depthStack.length)).filterMap fun entry =>
        keptStep decoders traceLevel cpuPerStep memPerStep entry.1.1 entry.1.2 entry.2 := by
  induction events generalizing offset state with
  | nil =>
    obtain rfl := Option.some.inj ran
    exact (List.append_nil _).symm
  | cons event rest ih =>
    obtain ⟨next, looked, ran⟩ := Partial.foldlM_cons_eq_some.mp ran
    obtain ⟨depth, deep, steps⟩ := steps_look looked (rest.map (traced decoders))
    rw [ih ran, steps, List.zipIdx_cons, List.map_cons, deep, List.zip_cons_cons, List.append_assoc, List.filterMap_cons]
    cases keptStep decoders traceLevel cpuPerStep memPerStep event offset depth <;> rfl

/-- The step of a call or a return has the depth of its event. -/
theorem stepDepth {events : List (DiagnosticEvent V)} {i d : Nat}
    (ran : events.zipIdx.foldlM (look decoders traceLevel cpuPerStep memPerStep) started = some final) (found : events[i]? = some event)
    (call : traced decoders event ≠ .plain) (at_depth : (depths (events.map (traced decoders)) 0)[i]? = some d) :
    StepDepth final.steps i d := by
  have listed : events.zipIdx[i]? = some (event, i) := by rw [List.getElem?_zipIdx, found, Option.map_some, Nat.zero_add]
  have steps := steps_run ran
  rw [started, List.nil_append, List.length_nil] at steps
  rw [steps]
  constructor
  · obtain ⟨state, next, looked⟩ := Partial.exists_of_foldlM ran (List.mem_iff_getElem?.mpr ⟨i, listed⟩)
    obtain ⟨step, kept⟩ := Option.isSome_iff_exists.mp (isSome_keptStep looked call d)
    refine ⟨step, List.mem_filterMap.mpr ⟨((event, i), d), List.mem_iff_getElem?.mpr ⟨i, ?_⟩, kept⟩, (keptStep_eq_some kept).1⟩
    exact List.getElem?_zip_eq_some.mpr ⟨listed, at_depth⟩
  · intro step member same
    obtain ⟨⟨⟨other, j⟩, d'⟩, inside, kept⟩ := List.mem_filterMap.mp member
    obtain ⟨k, at_k⟩ := List.mem_iff_getElem?.mp inside
    obtain ⟨left, right⟩ := List.getElem?_zip_eq_some.mp at_k
    rw [List.getElem?_zipIdx, Option.map_eq_some_iff] at left
    obtain ⟨_, -, position⟩ := left
    obtain ⟨-, rfl⟩ := Prod.mk.inj position
    obtain ⟨seq, deep⟩ := keptStep_eq_some kept
    have position : k = i := (Nat.zero_add k).symm.trans (seq.symm.trans same)
    rw [position, at_depth] at right
    exact deep.trans (Option.some.inj right).symm

/-! ### parseCallTrace -/

/-- The depths of the parsed events. -/
theorem depths_parse {events : List (DiagnosticEvent V)} {cpuPerEvent memPerEvent : Option Number} {state final : Parsing}
    (ran : (events.zipIdx offset).foldlM (parse decoders cpuPerEvent memPerEvent) state = some final) :
    final.events.map CallTraceNode.depth =
      state.events.map CallTraceNode.depth ++ depths (events.map (parsed decoders)) state.depthStack.length := by
  induction events generalizing offset state with
  | nil =>
    obtain rfl := Option.some.inj ran
    exact (List.append_nil _).symm
  | cons event rest ih =>
    obtain ⟨next, looked, ran⟩ := Partial.foldlM_cons_eq_some.mp ran
    obtain ⟨label, -, rfl⟩ := Option.map_eq_some_iff.mp looked
    rw [ih ran, List.map_cons, parsed, depths_inferDepth _ "fn_call", List.map_append, List.append_assoc]
    rfl

/-! ### The graph -/

/-- A call goes on the stack and into the graph. -/
theorem look_of_call {entry : DiagnosticEvent V × Nat} (looked : look decoders traceLevel cpuPerStep memPerStep state entry = some next)
    (call : traced decoders entry.1 = .opening) :
    ∃ steps, next = addCall decoders cpuPerStep entry.1 state.depthStack.length
      { state with depthStack := (contractOf entry.1 ++ ":" ++ functionOf decoders "fn_call" entry.1) :: state.depthStack, steps } := by
  obtain ⟨topic, stateChanges, -, marked, -, rfl⟩ := look_cases looked
  rw [call] at marked
  obtain rfl := markOf_eq_opening.mp marked.symm
  have kept : filtered traceLevel "fn_call" stateChanges = false := filtered_of_call (by decide) stateChanges
  have pushed (name : String) : inferDepth "fn_call" name state.depthStack = (state.depthStack.length, name :: state.depthStack) := if_pos rfl
  rw [place, kept, pushed]
  exact ⟨_, rfl⟩

/-- Any other event leaves the graph. -/
theorem look_of_other {entry : DiagnosticEvent V × Nat} (looked : look decoders traceLevel cpuPerStep memPerStep state entry = some next)
    (other : traced decoders entry.1 ≠ .opening) : ∃ steps depthStack, next = { state with steps, depthStack } := by
  obtain ⟨topic, stateChanges, -, marked, -, rfl⟩ := look_cases looked
  have no_call : topic ≠ "fn_call" := fun call => other (marked.trans (markOf_eq_opening.mpr call))
  rw [place]
  split
  · exact ⟨_, _, rfl⟩
  · dsimp only
    exact ⟨_, _, rfl⟩

/-- An event that is neither leaves the stack as well. -/
theorem look_of_plain {entry : DiagnosticEvent V × Nat} (looked : look decoders traceLevel cpuPerStep memPerStep state entry = some next)
    (plain : traced decoders entry.1 = .plain) : ∃ steps, next = { state with steps } := by
  obtain ⟨steps, depthStack, rfl⟩ := look_of_other looked (by rw [plain]; decide)
  obtain ⟨topic, stateChanges, -, marked, -, placed⟩ := look_cases looked
  have neither := markOf_eq_plain.mp (marked.symm.trans plain)
  rw [isCallStep, decide_eq_false_iff_not, not_or] at neither
  have stack := congrArg Tracing.depthStack placed
  simp only [depthStack_place, inferDepth, if_neg neither.1, if_neg neither.2] at stack
  rw [stack]
  exact ⟨steps, rfl⟩

/-- Each call is linked to the one before. -/
structure Linked (state : Tracing) : Prop where
  edges : state.edges = (links none 0 state.nodeCounter).map callEdge
  previous : state.prevNodeId = if state.nodeCounter = 0 then none else some (nodeId state.nodeCounter)

theorem Linked.look {entry : DiagnosticEvent V × Nat} (linked : Linked state)
    (looked : look decoders traceLevel cpuPerStep memPerStep state entry = some next) :
    Linked next ∧ next.nodeCounter = state.nodeCounter + if traced decoders entry.1 = .opening then 1 else 0 := by
  by_cases call : traced decoders entry.1 = .opening
  · obtain ⟨steps, rfl⟩ := look_of_call looked call
    rw [if_pos call]
    refine ⟨⟨?_, ?_⟩, rfl⟩
    · rw [addCall, links_succ, List.map_append, ← linked.edges, linked.previous]
      simp only [Nat.zero_add]
      split <;> rfl
    · rw [addCall, if_neg (Nat.succ_ne_zero _)]
      rfl
  · obtain ⟨steps, depthStack, rfl⟩ := look_of_other looked call
    rw [if_neg call]
    exact ⟨⟨linked.edges, linked.previous⟩, rfl⟩

theorem linked_run {events : List (DiagnosticEvent V)} (linked : Linked state)
    (ran : (events.zipIdx offset).foldlM (Trace.look decoders traceLevel cpuPerStep memPerStep) state = some final) :
    Linked final ∧ final.nodeCounter = state.nodeCounter + events.countP fun event => traced decoders event = .opening := by
  induction events generalizing offset state with
  | nil =>
    obtain rfl := Option.some.inj ran
    exact ⟨linked, rfl⟩
  | cons event rest ih =>
    obtain ⟨next, looked, ran⟩ := Partial.foldlM_cons_eq_some.mp ran
    obtain ⟨kept, one⟩ := linked.look looked
    obtain ⟨kept, counted⟩ := ih kept ran
    refine ⟨kept, ?_⟩
    rw [counted, one, List.countP_cons, Nat.add_assoc, Nat.add_comm (List.countP _ _)]
    simp only [decide_eq_true_eq]

/-- The edges of a trace lead from each call to the next one. -/
theorem edges_run (marked : forest.Marked (traced decoders))
    (ran : forest.word.zipIdx.foldlM (look decoders traceLevel cpuPerStep memPerStep) started = some final) :
    final.edges = (links none 0 forest.size).map callEdge := by
  obtain ⟨kept, counted⟩ := linked_run ⟨rfl, rfl⟩ ran
  rw [countP_word marked, started, Nat.zero_add] at counted
  rw [kept.edges, counted]

/-! ### Nodes -/

/-- A node stands under its own key, and is above the call that comes next. -/
def Fresh (state : Tracing) : Prop := ∀ entry ∈ state.nodeMap.entries, entry.1 = nodeKey entry.2 ∧ entry.2.depth < state.depthStack.length

theorem nodeMap_run_of_none {events : List (DiagnosticEvent V)} (none_open : ∀ event ∈ events, traced decoders event ≠ .opening)
    (ran : (events.zipIdx offset).foldlM (look decoders traceLevel cpuPerStep memPerStep) state = some final) :
    final.nodeMap = state.nodeMap := by
  induction events generalizing offset state with
  | nil =>
    obtain rfl := Option.some.inj ran
    rfl
  | cons event rest ih =>
    obtain ⟨other, others⟩ := List.forall_mem_cons.mp none_open
    obtain ⟨next, looked, ran⟩ := Partial.foldlM_cons_eq_some.mp ran
    obtain ⟨steps, depthStack, rfl⟩ := look_of_other looked other
    have same := ih others ran
    exact same

/-- The node of a call is new: those that are there are above it. -/
theorem Fresh.entries_set (fresh : Fresh state) {node : CallGraphNode} (level : node.depth = state.depthStack.length) :
    (state.nodeMap.set (nodeKey node) node).entries = state.nodeMap.entries ++ [(nodeKey node, node)] := by
  refine OrderedMap.entries_set_of_fresh fun known => ?_
  obtain ⟨entry, member, same⟩ := List.mem_map.mp known
  obtain ⟨key, above⟩ := fresh entry member
  have deep := (append_decimal_inj (key.symm.trans same)).2
  omega

theorem Fresh.addCall (fresh : Fresh state) (event : DiagnosticEvent V) (name : String) (steps : List TraceStep) :
    Fresh (addCall decoders cpuPerStep event state.depthStack.length { state with depthStack := name :: state.depthStack, steps }) := by
  intro entry member
  rw [Trace.addCall, List.length_cons]
  rw [Trace.addCall] at member
  dsimp only at member
  rw [fresh.entries_set rfl, List.mem_append, List.mem_singleton] at member
  rcases member with known | rfl
  · obtain ⟨key, above⟩ := fresh entry known
    exact ⟨key, Nat.lt_succ_of_lt above⟩
  · exact ⟨rfl, Nat.lt_succ_self _⟩

/-- Where no call comes after a return each call has its own node. -/
theorem nodes_run (marked : forest.Marked (traced decoders)) (straight : forest.Straight) (fresh : Fresh state)
    (ran : (forest.word.zipIdx offset).foldlM (look decoders traceLevel cpuPerStep memPerStep) state = some final) :
    final.nodeMap.entries.map Prod.snd =
      state.nodeMap.entries.map Prod.snd ++ ((forest.openings state.depthStack.length).zipIdx state.nodeCounter).map fun entry =>
        callNode decoders cpuPerStep entry.1.1 (entry.2 + 1) entry.1.2 := by
  induction forest generalizing offset state final with
  | nil =>
    obtain rfl := Option.some.inj ran
    exact (List.append_nil _).symm
  | plain event rest ih =>
    obtain ⟨plain, marked⟩ := marked
    obtain ⟨next, looked, ran⟩ := Partial.foldlM_cons_eq_some.mp ran
    obtain ⟨steps, rfl⟩ := look_of_plain looked plain
    have carried : Fresh { state with steps } := fresh
    have nodes := ih marked straight carried ran
    exact nodes
  | pair opening inner closing rest ihInner _ =>
    obtain ⟨opens, inside, closes, after⟩ := marked
    obtain ⟨straight, none_after⟩ := straight
    rw [Forest.word, List.cons_append] at ran
    obtain ⟨next, looked, ran⟩ := Partial.foldlM_cons_eq_some.mp ran
    obtain ⟨steps, rfl⟩ := look_of_call looked opens
    rw [List.zipIdx_append, List.foldlM_append] at ran
    obtain ⟨middle, ran, remaining⟩ := Option.bind_eq_some_iff.mp ran
    have closed : ∀ event ∈ closing :: rest.word, traced decoders event ≠ .opening := by
      rw [List.forall_mem_cons, closes]
      exact ⟨by decide, (size_eq_zero_iff after).mp none_after⟩
    have nodes := ihInner inside straight (fresh.addCall opening _ steps) ran
    have none_open : rest.openings state.depthStack.length = [] := List.eq_nil_of_length_eq_zero (length_openings.trans none_after)
    rw [nodeMap_run_of_none closed remaining, nodes, Forest.openings, none_open, List.append_nil, List.zipIdx_cons, List.map_cons,
      Trace.addCall]
    dsimp only
    rw [@Fresh.entries_set state fresh (callNode decoders cpuPerStep opening (state.nodeCounter + 1) state.depthStack.length) rfl,
      List.map_append, List.append_assoc]
    rfl

/-! ### The tree of calls -/

theorem nodeId_inj {m n : Nat} (same : nodeId m = nodeId n) : m = n := decimal_inj (String.ofList_inj.mp same)

theorem callEdge_inj {edge other : Nat × Nat} (same : callEdge edge = callEdge other) : edge = other :=
  Prod.ext (nodeId_inj (congrArg CallGraphEdge.fromNode same)) (nodeId_inj (congrArg CallGraphEdge.toNode same))

/-- Edges from each call to the next are those of a tree only if no call comes after a return. -/
theorem straight_of_edges {edges : List CallGraphEdge} (linked : edges = (links none 0 forest.size).map callEdge)
    (tree : edges.Perm (treeEdges forest)) : forest.Straight := by
  have outermost : ∀ p ∈ (none : Option Nat), p ≤ 0 := by
    intro p member
    cases member
  refine straight_of_links outermost fun j after before => ?_
  have edge : callEdge (j, j + 1) ∈ edges := by
    rw [linked]
    exact List.mem_map_of_mem (mem_links none after before)
  obtain ⟨found, member, same⟩ := List.mem_map.mp (tree.mem_iff.mp edge)
  rw [← callEdge_inj same]
  exact member

theorem exists_node {k : Nat} (positive : 0 < k) (within : k ≤ forest.size) :
    ∃ node ∈ treeNodes decoders forest cpuPerStep, node.id = nodeId k := by
  have listed : k - 1 < (forest.openings 0).length := by
    rw [length_openings]
    omega
  have call : ((forest.openings 0)[k - 1], k - 1) ∈ (forest.openings 0).zipIdx := by
    refine List.mem_iff_getElem?.mpr ⟨k - 1, ?_⟩
    rw [List.getElem?_zipIdx, List.getElem?_eq_getElem listed, Option.map_some, Nat.zero_add]
  exact ⟨_, List.mem_map_of_mem call, congrArg nodeId (Nat.sub_add_cancel positive)⟩

/-- The calls have their nodes and edges where none comes after a return. -/
theorem isTree_of_straight (marked : forest.Marked (traced decoders)) (straight : forest.Straight)
    (ran : forest.word.zipIdx.foldlM (look decoders traceLevel cpuPerStep memPerStep) started = some final) :
    final.nodeMap.entries.map Prod.snd = treeNodes decoders forest cpuPerStep ∧ final.edges = treeEdges forest := by
  refine ⟨?_, ?_⟩
  · have fresh : Fresh started := fun entry member => nomatch member
    exact (nodes_run marked straight fresh ran).trans (List.nil_append _)
  · rw [edges_run marked ran, treeEdges, edges_of_straight straight]

theorem endpoints_of_tree {edge : CallGraphEdge} (member : edge ∈ treeEdges forest) :
    (∃ node ∈ treeNodes decoders forest cpuPerStep, node.id = edge.fromNode) ∧
      ∃ node ∈ treeNodes decoders forest cpuPerStep, node.id = edge.toNode := by
  obtain ⟨pair, inside, rfl⟩ := List.mem_map.mp member
  obtain ⟨source, low, high⟩ := mem_edges inside
  rw [Nat.zero_add] at source high
  refine ⟨?_, exists_node low high⟩
  rcases source with root | ⟨low, high⟩
  · cases root
  · exact exists_node low high

/-- A loop of the trace comes to its end when all of its events render. -/
theorem exists_trace (renders : ∀ event ∈ forest.word, Renders decoders event) (traceLevel : TraceLevel) (cpuPerStep memPerStep : Number) :
    ∃ final, forest.word.zipIdx.foldlM (look decoders traceLevel cpuPerStep memPerStep) started = some final := by
  apply Option.isSome_iff_exists.mp
  rw [Partial.isSome_foldlM_iff fun state entry => isSome_look entry]
  intro entry member
  have rendered := renders entry.1 (List.fst_mem_of_mem_zipIdx member)
  exact ⟨rendered.topic, rendered.storage⟩

theorem exists_callTrace (renders : ∀ event ∈ forest.word, Renders decoders event) (cpuPerEvent memPerEvent : Option Number) (state : Parsing) :
    ∃ final, forest.word.zipIdx.foldlM (parse decoders cpuPerEvent memPerEvent) state = some final := by
  apply Option.isSome_iff_exists.mp
  rw [Partial.isSome_foldlM_iff isSome_parse]
  intro entry member
  exact (renders entry.1 (List.fst_mem_of_mem_zipIdx member)).label

/-- Only then. -/
theorem renders_of_ran {events : List (DiagnosticEvent V)} {cpuPerEvent memPerEvent : Option Number} {state parsing : Parsing}
    (ran : events.zipIdx.foldlM (look decoders traceLevel cpuPerStep memPerStep) started = some final)
    (parses : events.zipIdx.foldlM (parse decoders cpuPerEvent memPerEvent) state = some parsing) :
    ∀ event ∈ events, Renders decoders event := by
  have read := (Partial.isSome_foldlM_iff (fun state entry => isSome_look entry) started).mp (Option.isSome_iff_exists.mpr ⟨final, ran⟩)
  have labelled := (Partial.isSome_foldlM_iff isSome_parse state).mp (Option.isSome_iff_exists.mpr ⟨parsing, parses⟩)
  intro event member
  obtain ⟨i, found⟩ := List.mem_iff_getElem?.mp member
  have listed : events.zipIdx[i]? = some (event, i) := by rw [List.getElem?_zipIdx, found, Option.map_some, Nat.zero_add]
  obtain ⟨topic, storage⟩ := read _ (List.mem_iff_getElem?.mpr ⟨i, listed⟩)
  exact ⟨topic, storage, labelled _ (List.mem_iff_getElem?.mpr ⟨i, listed⟩)⟩

/-- A call and its return have the depth that their marks give them. -/
theorem oneDepth (bracketed : Bracketed decoders forest) {finals : TraceLevel → Tracing}
    {cpuPerEvent memPerEvent : Option Number} {parsing : Parsing}
    (ran : ∀ traceLevel, forest.word.zipIdx.foldlM (look decoders traceLevel cpuPerStep memPerStep) started = some (finals traceLevel))
    (parses : forest.word.zipIdx.foldlM (parse decoders cpuPerEvent memPerEvent) ⟨[], [], [], 0⟩ = some parsing)
    {span : Nat × Nat} (member : span ∈ forest.spans) :
    ∃ d, (∀ traceLevel, StepDepth (finals traceLevel).steps span.1 d ∧ StepDepth (finals traceLevel).steps span.2 d) ∧
      parsing.events[span.1]?.map CallTraceNode.depth = some d ∧ parsing.events[span.2]?.map CallTraceNode.depth = some d := by
  obtain ⟨d, first, last⟩ := @depths_spans _ _ _ 0 bracketed.tracedMarks span member
  obtain ⟨opens, closes⟩ := marks_spans bracketed.tracedMarks member
  rw [List.getElem?_map, Option.map_eq_some_iff] at opens closes
  obtain ⟨call, at_call, opens⟩ := opens
  obtain ⟨answer, at_answer, closes⟩ := closes
  have depths := depths_parse parses
  rw [List.map_nil, List.nil_append, List.length_nil, ← map_word_eq bracketed.tracedMarks bracketed.parsedMarks] at depths
  refine ⟨d, fun traceLevel => ⟨?_, ?_⟩, ?_, ?_⟩
  · exact stepDepth (ran traceLevel) at_call (by rw [opens]; decide) first
  · exact stepDepth (ran traceLevel) at_answer (by rw [closes]; decide) last
  · rw [← List.getElem?_map, depths, first]
  · rw [← List.getElem?_map, depths, last]

theorem straight_of_isCallTree (bracketed : Bracketed decoders forest) {totalCpu totalMem : Number} {cpuInsns memBytes : Option Number}
    (tree : IsCallTree decoders forest totalCpu totalMem cpuInsns memBytes) : forest.Straight := by
  obtain ⟨result, callTrace, traces, -, trees, -, -⟩ := tree
  obtain ⟨final, ran, shown⟩ := Option.map_eq_some_iff.mp (traces .full)
  have edges := (trees .full).edges
  rw [← shown] at edges
  exact straight_of_edges (edges_run bracketed.tracedMarks ran) edges

theorem renders_of_isCallTree {totalCpu totalMem : Number} {cpuInsns memBytes : Option Number}
    (tree : IsCallTree decoders forest totalCpu totalMem cpuInsns memBytes) : ∀ event ∈ forest.word, Renders decoders event := by
  obtain ⟨result, callTrace, traces, parses, -, -, -⟩ := tree
  obtain ⟨final, ran, -⟩ := Option.map_eq_some_iff.mp (traces .full)
  obtain ⟨parsing, parsed, -⟩ := Option.map_eq_some_iff.mp parses
  exact renders_of_ran ran parsed

theorem isCallTree_of_straight (bracketed : Bracketed decoders forest) (straight : forest.Straight)
    (renders : ∀ event ∈ forest.word, Renders decoders event) (totalCpu totalMem : Number) (cpuInsns memBytes : Option Number) :
    IsCallTree decoders forest totalCpu totalMem cpuInsns memBytes := by
  have runs (traceLevel : TraceLevel) := exists_trace renders traceLevel (perStep totalCpu forest.word.length)
    (perStep totalMem forest.word.length)
  choose finals ran using runs
  obtain ⟨parsing, parsed⟩ := exists_callTrace renders (perEvent cpuInsns forest.word.length) (perEvent memBytes forest.word.length)
    ⟨[], [], [], 0⟩
  let graph : CallGraph := ⟨treeNodes decoders forest (perStep totalCpu forest.word.length), treeEdges forest⟩
  refine ⟨fun traceLevel => ⟨(finals traceLevel).steps, totalCpu, totalMem, graph⟩,
    ⟨parsing.events, parsing.contractsSet.filter (· ≠ "system"), parsing.maxDepth⟩, fun traceLevel => ?_, ?_, fun _ => ?_, fun _ => rfl,
    fun span member => oneDepth bracketed ran parsed member⟩
  · obtain ⟨nodes, edges⟩ := isTree_of_straight bracketed.tracedMarks straight (ran traceLevel)
    refine Option.map_eq_some_iff.mpr ⟨finals traceLevel, ran traceLevel, ?_⟩
    rw [nodes, edges]
  · exact Option.map_eq_some_iff.mpr ⟨parsing, parsed, rfl⟩
  · exact ⟨List.Perm.refl _, List.Perm.refl _, fun edge => endpoints_of_tree⟩

/-- The graph is the tree of the calls exactly where no call comes after a return and nothing throws. -/
theorem callGraph_iff (bracketed : Bracketed decoders forest) (totalCpu totalMem : Number) (cpuInsns memBytes : Option Number) :
    IsCallTree decoders forest totalCpu totalMem cpuInsns memBytes ↔
      (forest.word.Pairwise fun a b => traced decoders a = .closing → traced decoders b ≠ .opening) ∧
        ∀ event ∈ forest.word, Renders decoders event := by
  rw [← straight_iff bracketed.tracedMarks]
  constructor
  · intro tree
    exact ⟨straight_of_isCallTree bracketed tree, renders_of_isCallTree tree⟩
  · rintro ⟨straight, renders⟩
    exact isCallTree_of_straight bracketed straight renders totalCpu totalMem cpuInsns memBytes

/-- Symbols, which are read as they are. -/
def symbols : Decoders String where
  decodeScVal symbol := ⟨"symbol", .text symbol⟩
  native symbol := symbol
  decodeData symbol := .text symbol
  stringify
    | .text symbol => some (some ("\"" ++ symbol ++ "\""))
    | .other string => string.map some

def call (contract function : String) : DiagnosticEvent String := ⟨true, some contract, "diagnostic", ["fn_call", contract, function], none⟩

def answer (contract function : String) : DiagnosticEvent String := ⟨true, some contract, "diagnostic", ["fn_return", function], some "ok"⟩

/-- A router calls a pool, which calls a token. -/
def oneSwap : Forest (DiagnosticEvent String) :=
  .pair (call "ROUTER" "route")
    (.pair (call "POOL" "swap")
      (.pair (call "TOKEN" "transfer") (.plain ⟨true, some "TOKEN", "contract", ["transfer", "A", "B"], some "ok"⟩ .nil)
        (answer "TOKEN" "transfer") .nil)
      (answer "POOL" "swap") .nil)
    (answer "ROUTER" "route") .nil

theorem renders_of_symbols (event : DiagnosticEvent String) : Renders symbols event :=
  ⟨fun _ _ => Option.some_ne_none _, fun _ _ _ _ _ => Option.some_ne_none _, fun _ _ _ => Option.some_ne_none _⟩

theorem callGraph_iff_oneSwap : Bracketed symbols oneSwap ∧ IsCallTree symbols oneSwap (.finite 700) (.finite 70) (some (.finite 700)) none := by
  have bracketed : Bracketed symbols oneSwap := by
    constructor <;> (rw [oneSwap]; repeat constructor)
  refine ⟨bracketed, (callGraph_iff bracketed _ _ _ _).mpr ⟨?_, fun event _ => renders_of_symbols event⟩⟩
  decide

/-- A router calls the same pool twice. -/
def twoSwaps : Forest (DiagnosticEvent String) :=
  .pair (call "ROUTER" "route")
    (.pair (call "POOL" "swap") .nil (answer "POOL" "swap") (.pair (call "POOL" "swap") .nil (answer "POOL" "swap") .nil))
    (answer "ROUTER" "route") .nil

theorem second_swap_misplaced :
    Bracketed symbols twoSwaps ∧ ¬ IsCallTree symbols twoSwaps (.finite 600) (.finite 60) (some (.finite 600)) none := by
  have bracketed : Bracketed symbols twoSwaps := by
    constructor <;> (rw [twoSwaps]; repeat constructor)
  refine ⟨bracketed, fun tree => ?_⟩
  have straight := straight_of_isCallTree bracketed tree
  have none_after : (1 : Nat) = 0 := straight.1.2
  cases none_after

end Octraban.Trace
