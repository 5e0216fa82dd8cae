import Mathlib.Data.List.Sort
import Octraban.Core.DepthFirst
import Octraban.Core.OrderedMap

/-! call-graph.ts: the call graph of a transaction's trace, and the loops found in it. -/
namespace Octraban.Reentrancy

/-- What a traced call says of itself, its depth apart. -/
structure Invocation where
  contractId : String
  functionName : String
  callIndex : Nat
  preStateReads : Option (List String)
  postStateWrites : Option (List String)

structure TraceCall extends Invocation where
  depth : Nat

/-- The source names the vertex `vtx_<id>`. -/
structure CallGraphVertex where
  id : Nat
  contractAddress : String
  functionName : String
  depth : Nat
  callIndex : Nat
  preStateReads : List String
  postStateWrites : List String

structure CallGraphEdge where
  fromVertexId : Nat
  toVertexId : Nat

structure CallGraph where
  vertices : List CallGraphVertex
  edges : List CallGraphEdge

/-- The loop variables of `buildCallGraph`; the innermost call is the first of the stack. -/
structure Building where
  graph : CallGraph
  depthStack : List CallGraphVertex

def newVertex (id : Nat) (call : TraceCall) : CallGraphVertex where
  id := id
  contractAddress := call.contractId
  functionName := call.functionName
  depth := call.depth
  callIndex := call.callIndex
  preStateReads := call.preStateReads.getD []
  postStateWrites := call.postStateWrites.getD []

/-- The calls that are still open when one of this depth is made. -/
def popTo (depth : Nat) (depthStack : List CallGraphVertex) : List CallGraphVertex :=
  depthStack.dropWhile fun v => depth ≤ v.depth

def addCall (building : Building) (call : TraceCall) : Building :=
  let vertex := newVertex building.graph.vertices.length call
  let callers := popTo call.depth building.depthStack
  { graph :=
      { vertices := building.graph.vertices ++ [vertex]
        edges := building.graph.edges ++ (callers.head?.map fun parent => ⟨parent.id, vertex.id⟩).toList }
    depthStack := vertex :: callers }

def start : Building := ⟨⟨[], []⟩, []⟩

def buildCallGraph (calls : List TraceCall) : CallGraph := (calls.foldl addCall start).graph

def getVertex (graph : CallGraph) (vertexId : Nat) : Option CallGraphVertex :=
  graph.vertices.find? fun v => v.id = vertexId

def buildContractAdjacency (graph : CallGraph) : OrderedMap String (List String) :=
  graph.edges.foldl
    (fun adj e =>
      match getVertex graph e.fromVertexId, getVertex graph e.toVertexId with
      | some fromVtx, some toVtx =>
        if fromVtx.contractAddress ≠ toVtx.contractAddress then
          adj.update fromVtx.contractAddress [] fun neighbors => Ordered.add neighbors toVtx.contractAddress
        else adj
      | _, _ => adj)
    (graph.vertices.foldl
      (fun adj v => if (adj.get v.contractAddress).isSome then adj else adj.set v.contractAddress []) .empty)

def buildAdjacencyList (graph : CallGraph) : OrderedMap Nat (List Nat) :=
  graph.edges.foldl (fun adj e => adj.update e.fromVertexId [] fun neighbors => neighbors ++ [e.toVertexId])
    (graph.vertices.foldl (fun adj v => adj.set v.id []) .empty)

/-- `dfs` from every key; its set recStack holds the vertices of the path. -/
def cyclesOf {V : Type} [DecidableEq V] (adjacency : OrderedMap V (List V)) : List (List V) :=
  (DepthFirst.run (fun v => (adjacency.get v).getD []) adjacency.keys).cycles

def findCycles (graph : CallGraph) : List (List Nat) := cyclesOf (buildAdjacencyList graph)

def findContractCycles (graph : CallGraph) : List (List String) := cyclesOf (buildContractAdjacency graph)

structure PathEntry where
  contractAddress : String
  functionName : String
  callIndex : Nat

def CallGraphVertex.entry (v : CallGraphVertex) : PathEntry := ⟨v.contractAddress, v.functionName, v.callIndex⟩

def byCallIndex (vertices : List CallGraphVertex) : List CallGraphVertex :=
  vertices.insertionSort fun a b => a.callIndex ≤ b.callIndex

def buildContractSequence (graph : CallGraph) : List PathEntry :=
  (byCallIndex graph.vertices).map CallGraphVertex.entry

def mapContractCycleToVertexPath (contractCycle : List String) (graph : CallGraph) : List PathEntry :=
  let seq := (buildContractSequence graph).zipIdx
  let (result, usedIndices) := contractCycle.foldl
    (fun (result, usedIndices) targetContract =>
      match seq.find? fun (entry, i) => i ∉ usedIndices ∧ entry.contractAddress = targetContract with
      | some (entry, i) => (result ++ [entry], usedIndices ++ [i])
      | none => (result, usedIndices)) (([] : List PathEntry), ([] : List Nat))
  -- what could not be mapped is filled in with whatever is left
  (seq.foldl
    (fun (result, usedIndices) (entry, i) =>
      if result.length < contractCycle.length ∧ i ∉ usedIndices ∧ entry.contractAddress ∈ contractCycle then
        (result ++ [entry], usedIndices ++ [i])
      else (result, usedIndices)) (result, usedIndices)).1

def buildVertexContractMap (graph : CallGraph) : OrderedMap Nat String :=
  graph.vertices.foldl (fun map v => map.set v.id v.contractAddress) .empty

/-! Call trees, and what their graphs are. -/

/-- The calls made one after another at one level, each with the calls that it makes itself. -/
inductive Calls where
  | none
  | call (invocation : Invocation) (inner next : Calls)

/-- The trace lists a call before the calls that it makes. -/
def Calls.trace (depth : Nat) : Calls → List TraceCall
  | none => []
  | call invocation inner next => ⟨invocation, depth⟩ :: inner.trace (depth + 1) ++ next.trace depth

/-- For each call the contracts from it out to the root, with `above` those around the tree. -/
def Calls.chains (above : List String) : Calls → List (List String)
  | none => []
  | call invocation inner next =>
    (invocation.contractId :: above) :: inner.chains (invocation.contractId :: above) ++ next.chains above

/-- Who calls whom at the end of a chain. -/
def lastCall : List String → Option (String × String)
  | callee :: caller :: _ => some (caller, callee)
  | _ => none

namespace Calls

/-- The contract of each call, in the order of the trace. -/
def sequence (calls : Calls) : List String := (calls.chains []).filterMap List.head?

/-- The contracts of a trace, in the order of their first calls. -/
def contracts (calls : Calls) : List String := Ordered.ofList calls.sequence

/-- The other contracts that a contract calls, in the order of its first calls of them. -/
def callees (calls : Calls) (contract : String) : List String :=
  Ordered.ofList ((((calls.chains []).filterMap lastCall).filter fun pair => pair.1 ≠ pair.2 ∧ pair.1 = contract).map
    Prod.snd)

variable {calls : Calls} {a b : String}

theorem mem_contracts : a ∈ calls.contracts ↔ ∃ above, a :: above ∈ calls.chains [] := by
  rw [contracts, Ordered.mem_ofList, sequence, List.mem_filterMap]
  constructor
  · rintro ⟨chain, member, first⟩
    obtain ⟨above, rfl⟩ := List.head?_eq_some_iff.mp first
    exact ⟨above, member⟩
  · rintro ⟨above, member⟩
    exact ⟨_, member, rfl⟩

theorem lastCall_eq_some {chain : List String} : lastCall chain = some (a, b) ↔ ∃ above, chain = b :: a :: above := by
  unfold lastCall
  split <;> simp_all [and_comm]

theorem mem_callees : b ∈ calls.callees a ↔ a ≠ b ∧ ∃ above, b :: a :: above ∈ calls.chains [] := by
  simp only [callees, Ordered.mem_ofList, List.mem_map, List.mem_filter, List.mem_filterMap, Prod.exists,
    decide_eq_true_eq]
  constructor
  · rintro ⟨a, b, ⟨⟨chain, member, last⟩, differ, rfl⟩, rfl⟩
    obtain ⟨above, rfl⟩ := lastCall_eq_some.mp last
    exact ⟨differ, above, member⟩
  · rintro ⟨differ, above, member⟩
    exact ⟨a, b, ⟨⟨_, member, rfl⟩, differ, rfl⟩, rfl⟩

/-- What follows a call in its chain is the chain of its caller. -/
theorem tail_mem_chains {above chain : List String} (member : chain ∈ calls.chains above) :
    ∃ contract rest, chain = contract :: rest ∧ (rest = above ∨ rest ∈ calls.chains above) := by
  induction calls generalizing above with
  | none => cases member
  | call invocation inner next innerHyp nextHyp =>
    simp only [chains, List.cons_append, List.mem_cons, List.mem_append] at member ⊢
    rcases member with rfl | member | member
    · exact ⟨_, above, rfl, .inl rfl⟩
    · obtain ⟨contract, rest, split, outside | inside⟩ := innerHyp member
      · exact ⟨contract, rest, split, .inr (.inl outside)⟩
      · exact ⟨contract, rest, split, .inr (.inr (.inl inside))⟩
    · obtain ⟨contract, rest, split, outside | inside⟩ := nextHyp member
      · exact ⟨contract, rest, split, .inl outside⟩
      · exact ⟨contract, rest, split, .inr (.inr (.inr inside))⟩

theorem caller_mem_chains {above : List String} (member : b :: a :: above ∈ calls.chains []) :
    a :: above ∈ calls.chains [] := by
  obtain ⟨contract, rest, split, outside | inside⟩ := tail_mem_chains member
  · rw [outside] at split
    cases split
  · rw [(List.cons.inj split).2]
    exact inside

theorem caller_mem_contracts (member : b ∈ calls.callees a) : a ∈ calls.contracts ∧ b ∈ calls.contracts := by
  obtain ⟨-, above, member⟩ := mem_callees.mp member
  exact ⟨mem_contracts.mpr ⟨above, caller_mem_chains member⟩, mem_contracts.mpr ⟨_, member⟩⟩

end Calls

/-- Vertices are numbered in their order, and a call comes after its caller. -/
structure Numbered (building : Building) : Prop where
  ids : building.graph.vertices.map CallGraphVertex.id = List.range building.graph.vertices.length
  known : ∀ v ∈ building.depthStack, v ∈ building.graph.vertices
  forward : ∀ e ∈ building.graph.edges,
    e.fromVertexId < e.toVertexId ∧ e.toVertexId < building.graph.vertices.length

theorem mem_of_mem_popTo {depth : Nat} {depthStack : List CallGraphVertex} {v : CallGraphVertex}
    (member : v ∈ popTo depth depthStack) : v ∈ depthStack :=
  (List.dropWhile_sublist _).mem member

theorem Numbered.id_lt {building : Building} (numbered : Numbered building) {v : CallGraphVertex}
    (member : v ∈ building.graph.vertices) : v.id < building.graph.vertices.length := by
  rw [← List.mem_range, ← numbered.ids]
  exact List.mem_map_of_mem member

theorem numbered_addCall {building : Building} (numbered : Numbered building) (call : TraceCall) :
    Numbered (addCall building call) where
  ids := by simp [addCall, numbered.ids, List.range_succ, newVertex]
  known := by
    intro v member
    simp only [addCall, List.mem_cons, List.mem_append, List.not_mem_nil, or_false] at member ⊢
    rcases member with rfl | member
    · exact .inr rfl
    · exact .inl (numbered.known v (mem_of_mem_popTo member))
  forward := by
    intro e member
    simp only [addCall, List.mem_append, Option.mem_toList, Option.map_eq_some_iff, List.length_append,
      List.length_singleton] at member ⊢
    rcases member with old | ⟨parent, top, rfl⟩
    · have := numbered.forward e old
      omega
    · have := numbered.id_lt (numbered.known parent (mem_of_mem_popTo (List.mem_of_head? top)))
      simp only [newVertex]
      omega

theorem numbered_foldl {building : Building} (numbered : Numbered building) (calls : List TraceCall) :
    Numbered (calls.foldl addCall building) := by
  induction calls generalizing building with
  | nil => exact numbered
  | cons call calls ih => exact ih (numbered_addCall numbered call)

theorem numbered_start : Numbered start := ⟨rfl, by simp [start], by simp [start]⟩

theorem Numbered.getVertex {building : Building} (numbered : Numbered building) {v : CallGraphVertex}
    (member : v ∈ building.graph.vertices) : getVertex building.graph v.id = some v := by
  have nodup : (building.graph.vertices.map CallGraphVertex.id).Nodup := numbered.ids ▸ List.nodup_range
  unfold Reentrancy.getVertex
  generalize building.graph.vertices = vertices at *
  induction vertices with
  | nil => cases member
  | cons first rest ih =>
    obtain ⟨fresh, nodup⟩ := List.nodup_cons.mp nodup
    rcases List.mem_cons.mp member with rfl | later
    · simp
    · have other : first.id ≠ v.id := fun same => fresh (same ▸ List.mem_map_of_mem later)
      rw [List.find?_cons_of_neg (by simpa using other)]
      exact ih later nodup

/-- What the listing of `calls` at some depth adds, made by the innermost of `callers`. -/
structure Adds (calls : Calls) (depth : Nat) (callers : List CallGraphVertex) (before after : Building) : Prop where
  vertices : ∃ added, after.graph.vertices = before.graph.vertices ++ added ∧
    added.map CallGraphVertex.contractAddress =
      (calls.chains (callers.map CallGraphVertex.contractAddress)).filterMap List.head?
  edges : ∃ links : List (CallGraphVertex × CallGraphVertex),
    after.graph.edges = before.graph.edges ++ links.map (fun link => ⟨link.1.id, link.2.id⟩) ∧
    links.map (fun link => (link.1.contractAddress, link.2.contractAddress)) =
      (calls.chains (callers.map CallGraphVertex.contractAddress)).filterMap lastCall ∧
    ∀ link ∈ links, link.1 ∈ after.graph.vertices ∧ link.2 ∈ after.graph.vertices
  stack : popTo depth after.depthStack = callers

theorem popTo_popTo (depth : Nat) (depthStack : List CallGraphVertex) :
    popTo depth (popTo (depth + 1) depthStack) = popTo depth depthStack := by
  induction depthStack with
  | nil => rfl
  | cons v rest ih =>
    unfold popTo at ih ⊢
    by_cases deeper : depth + 1 ≤ v.depth
    · have deep : depth ≤ v.depth := by omega
      have outer : List.dropWhile (fun v : CallGraphVertex => decide (depth ≤ v.depth)) (v :: rest) =
          rest.dropWhile fun v => decide (depth ≤ v.depth) := List.dropWhile_cons_of_pos (decide_eq_true deep)
      have inner : List.dropWhile (fun v : CallGraphVertex => decide (depth + 1 ≤ v.depth)) (v :: rest) =
          rest.dropWhile fun v => decide (depth + 1 ≤ v.depth) := List.dropWhile_cons_of_pos (decide_eq_true deeper)
      rw [outer, inner]
      exact ih
    · have inner : List.dropWhile (fun v : CallGraphVertex => decide (depth + 1 ≤ v.depth)) (v :: rest) = v :: rest :=
        List.dropWhile_cons_of_neg fun holds => deeper (of_decide_eq_true holds)
      rw [inner]

theorem popTo_self (depth : Nat) (depthStack : List CallGraphVertex) :
    popTo depth (popTo depth depthStack) = popTo depth depthStack := by
  induction depthStack with
  | nil => rfl
  | cons v rest ih =>
    unfold popTo at ih ⊢
    by_cases deep : depth ≤ v.depth
    · simpa [deep] using ih
    · simp [deep]

theorem lastCall_cons (contract : String) (callers : List CallGraphVertex) :
    lastCall (contract :: callers.map CallGraphVertex.contractAddress) =
      callers.head?.map fun parent => (parent.contractAddress, contract) := by
  cases callers with
  | nil => rfl
  | cons parent outer => rfl

theorem adds_trace (calls : Calls) (depth : Nat) {before : Building} (numbered : Numbered before) :
    Adds calls depth (popTo depth before.depthStack) before ((calls.trace depth).foldl addCall before) := by
  induction calls generalizing depth before with
  | none => exact ⟨⟨[], by simp [Calls.trace, Calls.chains]⟩, ⟨[], by simp [Calls.trace, Calls.chains]⟩, rfl⟩
  | call invocation inner next innerHyp nextHyp =>
    have pushed := numbered_addCall numbered ⟨invocation, depth⟩
    have inside := innerHyp (depth + 1) pushed
    have outside := nextHyp depth (numbered_foldl pushed (inner.trace (depth + 1)))
    set callers := popTo depth before.depthStack with callersDef
    set vertex := newVertex before.graph.vertices.length ⟨invocation, depth⟩ with vertexDef
    have made : (addCall before ⟨invocation, depth⟩).graph.edges =
        before.graph.edges ++ (callers.head?.map fun parent => ⟨parent.id, vertex.id⟩).toList := rfl
    have shallow : vertex.depth = depth := rfl
    have opened : popTo (depth + 1) (addCall before ⟨invocation, depth⟩).depthStack = vertex :: callers := by
      have pushed : (addCall before ⟨invocation, depth⟩).depthStack = vertex :: callers := rfl
      rw [pushed, popTo, List.dropWhile_cons_of_neg (by simp [shallow])]
    rw [opened] at inside
    obtain ⟨⟨innerAdded, innerVertices, innerContracts⟩, ⟨innerLinks, innerEdges, innerPairs, innerKnown⟩,
      innerStack⟩ := inside
    have returned : popTo depth ((inner.trace (depth + 1)).foldl addCall
        (addCall before ⟨invocation, depth⟩)).depthStack = callers := by
      rw [← popTo_popTo, innerStack, popTo, List.dropWhile_cons_of_pos (by simp [shallow]), callersDef]
      exact popTo_self depth before.depthStack
    rw [returned] at outside
    obtain ⟨⟨nextAdded, nextVertices, nextContracts⟩, ⟨nextLinks, nextEdges, nextPairs, nextKnown⟩,
      nextStack⟩ := outside
    have whole : ((Calls.call invocation inner next).trace depth).foldl addCall before =
        (next.trace depth).foldl addCall ((inner.trace (depth + 1)).foldl addCall
          (addCall before ⟨invocation, depth⟩)) := by
      rw [Calls.trace, List.foldl_append, List.foldl_cons]
    rw [whole]
    have kept (v : CallGraphVertex) (member : v ∈ ((inner.trace (depth + 1)).foldl addCall
        (addCall before ⟨invocation, depth⟩)).graph.vertices) :
        v ∈ ((next.trace depth).foldl addCall ((inner.trace (depth + 1)).foldl addCall
          (addCall before ⟨invocation, depth⟩))).graph.vertices := by
      rw [nextVertices]
      exact List.mem_append_left _ member
    have vertices : (addCall before ⟨invocation, depth⟩).graph.vertices = before.graph.vertices ++ [vertex] := rfl
    refine ⟨⟨vertex :: innerAdded ++ nextAdded, ?_, ?_⟩,
      ⟨(callers.head?.map fun parent => (parent, vertex)).toList ++ innerLinks ++ nextLinks, ?_, ?_, ?_⟩, nextStack⟩
    · rw [nextVertices, innerVertices, vertices]
      simp
    · simp only [Calls.chains, List.cons_append, List.map_cons, List.map_append, List.filterMap_cons,
        List.filterMap_append, List.head?_cons, innerContracts, nextContracts]
      rfl
    · rw [nextEdges, innerEdges, made]
      cases callers.head? <;> simp
    · simp only [Calls.chains, List.cons_append, List.map_append, List.filterMap_cons, List.filterMap_append,
        innerPairs, nextPairs, lastCall_cons]
      cases callers.head? <;> rfl
    · intro link member
      simp only [List.mem_append, Option.mem_toList, Option.map_eq_some_iff] at member
      rcases member with (⟨parent, top, rfl⟩ | member) | member
      · have parentKnown := numbered.known parent (mem_of_mem_popTo (List.mem_of_head? top))
        refine ⟨kept parent ?_, kept vertex ?_⟩
        · rw [innerVertices, vertices]
          simp [parentKnown]
        · rw [innerVertices, vertices]
          simp
      · exact ⟨kept _ (innerKnown link member).1, kept _ (innerKnown link member).2⟩
      · exact nextKnown link member

/-- The graph of a call tree: its vertices and edges are the calls of the tree and who made them. -/
theorem buildCallGraph_trace (calls : Calls) : ∃ links : List (CallGraphVertex × CallGraphVertex),
    let graph := buildCallGraph (calls.trace 0)
    graph.vertices.map CallGraphVertex.contractAddress = calls.sequence ∧
    graph.edges = links.map (fun link => ⟨link.1.id, link.2.id⟩) ∧
    links.map (fun link => (link.1.contractAddress, link.2.contractAddress)) =
      (calls.chains []).filterMap lastCall ∧
    ∀ link ∈ links, getVertex graph link.1.id = some link.1 ∧ getVertex graph link.2.id = some link.2 := by
  obtain ⟨⟨added, vertices, contracts⟩, ⟨links, edges, pairs, known⟩, -⟩ := adds_trace calls 0 numbered_start
  have numbered := numbered_foldl numbered_start (calls.trace 0)
  refine ⟨links, ?_, edges, pairs, fun link member => ?_⟩
  · unfold buildCallGraph
    rw [vertices]
    exact contracts
  · exact ⟨numbered.getVertex (known link member).1, numbered.getVertex (known link member).2⟩

theorem isSome_set_keys {V : Type} (contracts : List CallGraphVertex) (adj : OrderedMap String V) (empty : V) :
    (contracts.foldl (fun adj v => if (adj.get v.contractAddress).isSome then adj
      else adj.set v.contractAddress empty) adj).keys =
      (contracts.map CallGraphVertex.contractAddress).foldl Ordered.add adj.keys := by
  induction contracts generalizing adj with
  | nil => rfl
  | cons v rest ih =>
    rw [List.foldl_cons, ih, List.map_cons, List.foldl_cons]
    congr 1
    split
    · rename_i known
      exact (if_pos (OrderedMap.isSome_get.mp known)).symm
    · exact OrderedMap.keys_set

/-- At the level of contracts the graph of a call tree is who calls whom in it. -/
theorem buildContractAdjacency_trace (calls : Calls) :
    (buildContractAdjacency (buildCallGraph (calls.trace 0))).keys = calls.contracts ∧
    ∀ c, ((buildContractAdjacency (buildCallGraph (calls.trace 0))).get c).getD [] = calls.callees c := by
  obtain ⟨links, vertices, edges, pairs, known⟩ := buildCallGraph_trace calls
  set graph := buildCallGraph (calls.trace 0)
  set unlinked := graph.vertices.foldl
      (fun adj v => if (adj.get v.contractAddress).isSome then adj else adj.set v.contractAddress [])
      (.empty : OrderedMap String (List String)) with unlinkedDef
  have blank : OrderedMap.Blank [] unlinked := by
    refine List.foldlRecOn graph.vertices _ OrderedMap.blank_empty fun adj blank v _ => ?_
    split
    · exact blank
    · exact blank.set v.contractAddress
  have linked : buildContractAdjacency graph =
      (((calls.chains []).filterMap lastCall).filter fun pair => pair.1 ≠ pair.2).foldl
        (fun adj pair => adj.update pair.1 [] fun neighbors => Ordered.add neighbors pair.2) unlinked := by
    rw [buildContractAdjacency, edges, ← pairs, List.foldl_filter, List.foldl_map, List.foldl_map]
    refine List.foldl_ext _ _ _ fun adj link member => ?_
    simp [(known link member).1, (known link member).2]
  have keys : unlinked.keys = calls.contracts := by
    rw [unlinkedDef, isSome_set_keys, vertices]
    rfl
  constructor
  · rw [linked, OrderedMap.keys_foldl_update, keys]
    refine Ordered.foldl_add_of_subset fun a member => ?_
    simp only [List.mem_map, List.mem_filter, List.mem_filterMap, Prod.exists] at member
    obtain ⟨a, b, ⟨⟨chain, inside, last⟩, -⟩, rfl⟩ := member
    obtain ⟨above, rfl⟩ := Calls.lastCall_eq_some.mp last
    exact Calls.mem_contracts.mpr ⟨above, Calls.caller_mem_chains inside⟩
  · intro c
    rw [linked, OrderedMap.getD_foldl_update, blank]
    unfold Calls.callees Ordered.ofList
    rw [List.foldl_map, List.filter_filter]
    congr 2
    funext pair
    simp [and_comm]

theorem mem_findContractCycles {calls : Calls} {cycle : List String} :
    cycle ∈ findContractCycles (buildCallGraph (calls.trace 0)) ↔
      ∃ below t, DepthFirst.Enters calls.callees [] calls.contracts below t ∧
        DepthFirst.Closes calls.callees below t cycle := by
  obtain ⟨keys, adjacent⟩ := buildContractAdjacency_trace calls
  rw [findContractCycles, cyclesOf, keys, funext adjacent, DepthFirst.mem_run_cycles]
  exact fun v _ w edge => (Calls.caller_mem_contracts edge).2

theorem foldl_append_map {E V : Type} (f : E → V) (elements : List E) (collected : List V) :
    elements.foldl (fun collected e => collected ++ [f e]) collected = collected ++ elements.map f := by
  induction elements generalizing collected with
  | nil => simp
  | cons e elements ih => simp [ih]

theorem set_keys (vertices : List CallGraphVertex) (adj : OrderedMap Nat (List Nat)) :
    (vertices.foldl (fun adj v => adj.set v.id []) adj).keys =
      (vertices.map CallGraphVertex.id).foldl Ordered.add adj.keys := by
  induction vertices generalizing adj with
  | nil => rfl
  | cons v rest ih => rw [List.foldl_cons, ih, OrderedMap.keys_set, List.map_cons, List.foldl_cons]

/-- No call is made from within a later one. -/
theorem findCycles_trace (calls : Calls) : findCycles (buildCallGraph (calls.trace 0)) = [] := by
  have numbered := numbered_foldl numbered_start (calls.trace 0)
  set graph := buildCallGraph (calls.trace 0)
  have edge_iff (v w : Nat) (edge : w ∈ ((buildAdjacencyList graph).get v).getD []) :
      v < w ∧ w < graph.vertices.length := by
    have blank : OrderedMap.Blank [] (graph.vertices.foldl (fun adj v => adj.set v.id [])
        (.empty : OrderedMap Nat (List Nat))) :=
      List.foldlRecOn graph.vertices _ OrderedMap.blank_empty fun adj blank v _ => blank.set v.id
    rw [buildAdjacencyList, OrderedMap.getD_foldl_update, blank, foldl_append_map] at edge
    obtain ⟨e, member, rfl⟩ := List.mem_map.mp edge
    obtain ⟨member, starts⟩ := List.mem_filter.mp member
    rw [← of_decide_eq_true starts]
    exact numbered.forward e member
  refine DepthFirst.run_cycles_eq_nil (fun v _ w edge => ?_) fun v loop => ?_
  · rw [buildAdjacencyList, OrderedMap.keys_foldl_update, Ordered.mem_foldl_add, set_keys]
    refine .inl (Ordered.mem_foldl_add.mpr (.inr ?_))
    have ids : graph.vertices.map CallGraphVertex.id = List.range graph.vertices.length := numbered.ids
    rw [ids]
    exact List.mem_range.mpr (edge_iff v w edge).2
  · have increases {w : Nat} (walk : Relation.TransGen
        (fun a b => b ∈ ((buildAdjacencyList graph).get a).getD []) v w) : v < w := by
      induction walk with
      | single edge => exact (edge_iff _ _ edge).1
      | tail _ edge ih => exact ih.trans (edge_iff _ _ edge).1
    exact absurd (increases loop) (lt_irrefl v)

/-! ### Call trees -/

namespace Calls

/-- How many calls there are. -/
def size : Calls → Nat
  | none => 0
  | call _ inner next => inner.size + 1 + next.size

/-- The edges from each call to those that it makes. Calls are numbered in the order of the trace, from
`first` on; `parent` makes those of the first level. -/
def links : Calls → Option Nat → Nat → List CallGraphEdge
  | none, _, _ => []
  | call _ inner next, parent, first =>
    (parent.map fun caller => ⟨caller, first⟩).toList ++ inner.links (some first) (first + 1) ++
      next.links parent (first + 1 + inner.size)

theorem length_trace (calls : Calls) (depth : Nat) : (calls.trace depth).length = calls.size := by
  induction calls generalizing depth with
  | none => rfl
  | call invocation inner next innerHyp nextHyp =>
    rw [trace, List.cons_append, List.length_cons, List.length_append, innerHyp, nextHyp, size]
    omega

theorem links_range {calls : Calls} {parent : Option Nat} {first : Nat} {e : CallGraphEdge}
    (member : e ∈ calls.links parent first) : first ≤ e.toVertexId ∧ e.toVertexId < first + calls.size := by
  induction calls generalizing parent first with
  | none => cases member
  | call invocation inner next innerHyp nextHyp =>
    simp only [links, List.mem_append, Option.mem_toList, Option.map_eq_some_iff] at member
    rw [size]
    rcases member with (⟨caller, -, rfl⟩ | member) | member
    · exact ⟨le_rfl, Nat.lt_add_of_pos_right (by omega)⟩
    · have := innerHyp member
      omega
    · have := nextHyp member
      omega

/-- Each edge goes to a later call than the edges before it. -/
theorem links_increase (calls : Calls) (parent : Option Nat) (first : Nat) :
    (calls.links parent first).Pairwise fun e f => e.toVertexId < f.toVertexId := by
  induction calls generalizing parent first with
  | none => exact .nil
  | call invocation inner next innerHyp nextHyp =>
    refine List.pairwise_append.mpr ⟨List.pairwise_append.mpr ⟨?_, innerHyp _ _, ?_⟩, nextHyp _ _, ?_⟩
    · cases parent with
      | none => exact .nil
      | some caller => exact List.pairwise_singleton _ _
    · intro e above f below
      obtain ⟨caller, -, rfl⟩ := Option.map_eq_some_iff.mp (Option.mem_toList.mp above)
      have := links_range below
      dsimp only
      omega
    · intro e earlier f later
      have bound := links_range later
      rcases List.mem_append.mp earlier with above | below
      · obtain ⟨caller, -, rfl⟩ := Option.map_eq_some_iff.mp (Option.mem_toList.mp above)
        dsimp only
        omega
      · have := links_range below
        omega

end Calls

/-- Every call of a trace has its vertex, in their order. -/
theorem vertices_foldl (building : Building) (calls : List TraceCall) :
    (calls.foldl addCall building).graph.vertices = building.graph.vertices ++
      (calls.zipIdx building.graph.vertices.length).map fun (call, id) => newVertex id call := by
  induction calls generalizing building with
  | nil => simp
  | cons call calls ih =>
    rw [List.foldl_cons, ih]
    simp [addCall]

theorem edges_trace (calls : Calls) (depth : Nat) (before : Building) :
    ((calls.trace depth).foldl addCall before).graph.edges = before.graph.edges ++
        calls.links ((popTo depth before.depthStack).head?.map CallGraphVertex.id) before.graph.vertices.length ∧
      popTo depth ((calls.trace depth).foldl addCall before).depthStack = popTo depth before.depthStack := by
  induction calls generalizing depth before with
  | none => exact ⟨(List.append_nil _).symm, rfl⟩
  | call invocation inner next innerHyp nextHyp =>
    set vertex := newVertex before.graph.vertices.length ⟨invocation, depth⟩ with vertexDef
    set pushed := addCall before ⟨invocation, depth⟩ with pushedDef
    obtain ⟨innerEdges, innerStack⟩ := innerHyp (depth + 1) pushed
    obtain ⟨nextEdges, nextStack⟩ := nextHyp depth ((inner.trace (depth + 1)).foldl addCall pushed)
    have shallow : vertex.depth = depth := rfl
    have stacked : pushed.depthStack = vertex :: popTo depth before.depthStack := rfl
    have opened : popTo (depth + 1) pushed.depthStack = vertex :: popTo depth before.depthStack := by
      rw [stacked, popTo, List.dropWhile_cons_of_neg (by simp [shallow])]
    -- what the inner calls leave open is the call itself, which its depth closes
    have returned : popTo depth ((inner.trace (depth + 1)).foldl addCall pushed).depthStack =
        popTo depth before.depthStack := by
      rw [← popTo_popTo, innerStack, opened, popTo, List.dropWhile_cons_of_pos (by simp [shallow])]
      exact popTo_self depth before.depthStack
    have added : ((inner.trace (depth + 1)).foldl addCall pushed).graph.vertices.length =
        before.graph.vertices.length + 1 + inner.size := by
      rw [vertices_foldl, List.length_append, List.length_map, List.length_zipIdx, Calls.length_trace]
      simp [pushedDef, addCall]
    have whole : ((Calls.call invocation inner next).trace depth).foldl addCall before =
        (next.trace depth).foldl addCall ((inner.trace (depth + 1)).foldl addCall pushed) := by
      rw [Calls.trace, List.foldl_append, List.foldl_cons]
    rw [whole, nextEdges, nextStack, returned, added, innerEdges, opened]
    refine ⟨?_, rfl⟩
    have edges : pushed.graph.edges = before.graph.edges ++
        ((popTo depth before.depthStack).head?.map fun parent => ⟨parent.id, vertex.id⟩).toList := rfl
    have counted : pushed.graph.vertices.length = before.graph.vertices.length + 1 := by simp [pushedDef, addCall]
    rw [edges, counted, Calls.links, List.append_assoc, List.append_assoc, List.append_assoc, Option.map_map]
    rfl

/-- The graph of a call tree has a vertex for each call and the edges of the tree: at most one comes in
at a vertex, and there are no cycles. -/
theorem call_graph_is_tree (calls : Calls) :
    let graph := buildCallGraph (calls.trace 0)
    graph.vertices = (calls.trace 0).zipIdx.map (fun (call, id) => newVertex id call) ∧
    graph.edges = calls.links Option.none 0 ∧
    (∀ v, (graph.edges.filter fun e => e.toVertexId = v).length ≤ 1) ∧
    findCycles graph = [] := by
  have edges := (edges_trace calls 0 start).1
  refine ⟨vertices_foldl start (calls.trace 0), edges, fun v => ?_, findCycles_trace calls⟩
  have increase : (buildCallGraph (calls.trace 0)).edges.Pairwise fun e f => e.toVertexId < f.toVertexId := by
    rw [buildCallGraph, edges]
    exact calls.links_increase Option.none 0
  have ordered := increase.filter fun e => e.toVertexId = v
  have target (e : CallGraphEdge) (member : e ∈ (buildCallGraph (calls.trace 0)).edges.filter
      fun e => e.toVertexId = v) : e.toVertexId = v := of_decide_eq_true (List.mem_filter.mp member).2
  cases found : (buildCallGraph (calls.trace 0)).edges.filter fun e => e.toVertexId = v with
  | nil => exact Nat.zero_le 1
  | cons e others =>
    rw [found] at ordered target
    cases others with
    | nil => exact le_rfl
    | cons f others =>
      have less := (List.pairwise_cons.mp ordered).1 f List.mem_cons_self
      rw [target e List.mem_cons_self, target f (List.mem_cons_of_mem _ List.mem_cons_self)] at less
      exact absurd less (lt_irrefl v)

end Octraban.Reentrancy
