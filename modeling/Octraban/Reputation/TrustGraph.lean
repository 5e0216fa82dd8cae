import Mathlib.Algebra.BigOperators.Group.Finset.Piecewise
import Octraban.Core.BreadthFirst
import Octraban.Reputation.Score

/-! trustGraph.ts: a path of trust between two addresses. -/
namespace Octraban.TrustNetwork
open JavaScript Reputation StableText BreadthFirst

structure TrustEdgeInput where
  fromAddress : String
  toAddress : String
  weight : Scalar

/-- What the graph takes of the data of a chain. -/
structure ChainData where
  chainId : String
  trustEdges : Option (List TrustEdgeInput)

structure TrustEdge where
  fromAddress : String
  toAddress : String
  chainId : String
  weight : Number

structure TrustGraph where
  nodes : List String
  edges : List TrustEdge

structure TrustPath where
  fromAddress : String
  toAddress : String
  path : List String
  distance : Number
  chainIds : List String

/-- What waits in the queue. -/
structure Visit where
  address : String
  path : List String
  distance : Number
  chainIds : List String

def normalizeEdgeWeight (value : Scalar) : Number :=
  (roundRat (1 / 10000)).max (Scoring.toNumber value (.finite 1))

def canonicalEdge (chainId : String) (edge : TrustEdgeInput) : TrustEdge where
  fromAddress := canonicalAddress edge.fromAddress
  toAddress := canonicalAddress edge.toAddress
  chainId := chainId
  weight := normalizeEdgeWeight edge.weight

@[simp] theorem fromAddress_canonicalEdge (chainId : String) (edge : TrustEdgeInput) :
    (canonicalEdge chainId edge).fromAddress = canonicalAddress edge.fromAddress := by
  rw [canonicalEdge]

@[simp] theorem toAddress_canonicalEdge (chainId : String) (edge : TrustEdgeInput) :
    (canonicalEdge chainId edge).toAddress = canonicalAddress edge.toAddress := by
  rw [canonicalEdge]

def itemEdges (item : ChainData) : List TrustEdge := (item.trustEdges.getD []).map (canonicalEdge item.chainId)

def buildTrustGraph (localeCompare : String → String → Ordering) (chainData : List ChainData) : TrustGraph :=
  let edges := (chainData.mergeSort fun a b => (localeCompare a.chainId b.chainId).isLE).flatMap itemEdges
  { nodes := (Ordered.ofList (edges.flatMap fun edge => [edge.fromAddress, edge.toAddress])).mergeSort Scoring.unitsBefore
    edges }

def adjacency (edges : List TrustEdge) : OrderedMap String (List TrustEdge) :=
  edges.foldl (fun m edge => m.update edge.fromAddress [] (· ++ [edge])) OrderedMap.empty

/-- The path of a visit, one edge further. -/
def further (current : Visit) (next : TrustEdge) : Visit where
  address := next.toAddress
  path := current.path ++ [next.toAddress]
  distance := current.distance.add ((Number.finite 1).div (next.weight.max (roundRat (1 / 10000))))
  chainIds := (Ordered.ofList (current.chainIds ++ [next.chainId])).mergeSort Scoring.unitsBefore

/-- The edges of the current visit: either one reaches the end or all are queued. -/
def expand (start stop : String) (current : Visit) : List TrustEdge → List Visit → TrustPath ⊕ List Visit
  | [], queue => .inr queue
  | next :: rest, queue =>
    let visit := further current next
    if next.toAddress = stop then
      .inl { fromAddress := start, toAddress := stop, path := visit.path, distance := Scoring.round visit.distance
             chainIds := visit.chainIds }
    else expand start stop current rest (queue ++ [visit])

def visitKey (address : String) (length : ℕ) : String := address ++ ":" ++ String.ofList (decimal length)

/-- The loop over the queue; none where it is not over after so many rounds. -/
def search (links : OrderedMap String (List TrustEdge)) (start stop : String) (maxDepth : ℚ) :
    ℕ → List Visit → List String → Option (Option TrustPath)
  | 0, _, _ => none
  | _ + 1, [], _ => some none
  | rounds + 1, current :: queue, visited =>
    let key := visitKey current.address current.path.length
    if key ∈ visited ∨ maxDepth < current.path.length then search links start stop maxDepth rounds queue visited
    else
      match expand start stop current ((links.get current.address).getD []) queue with
      | .inl path => some (some path)
      | .inr queue => search links start stop maxDepth rounds queue (Ordered.add visited key)

/-- `findTrustPath`, by rounds of its loop. -/
def findTrustPath (rounds : ℕ) (graph : TrustGraph) (fromAddress toAddress : String) (maxDepth : ℚ) : Option (Option TrustPath) :=
  let start := canonicalAddress fromAddress
  let stop := canonicalAddress toAddress
  if start = stop then
    some (some { fromAddress := start, toAddress := stop, path := [start], distance := .finite 0, chainIds := [] })
  else
    search (adjacency graph.edges) start stop maxDepth rounds
      [{ address := start, path := [start], distance := .finite 0, chainIds := [] }] []

/-- It ends, with this result. -/
def Returns (graph : TrustGraph) (fromAddress toAddress : String) (maxDepth : ℚ) (result : Option TrustPath) : Prop :=
  ∃ rounds, ∀ more ≥ rounds, findTrustPath more graph fromAddress toAddress maxDepth = some result

/-- An edge of trust of the data, between canonical addresses. -/
def Trusts (chainData : List ChainData) (a b : String) : Prop :=
  ∃ item ∈ chainData, ∃ edge ∈ item.trustEdges.getD [],
    canonicalAddress edge.fromAddress = a ∧ canonicalAddress edge.toAddress = b

/-- The shortest of all walks, if it is short enough. -/
def Shortest (edge : String → String → Prop) (start stop : String) (maxDepth : ℚ) : Option (List String) → Prop
  | none => ∀ n : ℕ, Walk edge start n stop → ¬ (n : ℚ) ≤ maxDepth
  | some path =>
    path.head? = some start ∧ path.getLast? = some stop ∧ path.IsChain edge ∧
      ((path.length - 1 : ℕ) : ℚ) ≤ maxDepth ∧ ∀ n, Walk edge start n stop → path.length - 1 ≤ n

/-! ### Edges -/

theorem get_adjacency (edges : List TrustEdge) (address : String) :
    ((adjacency edges).get address).getD [] = edges.filter fun edge => edge.fromAddress = address := by
  have grown (start : List TrustEdge) (chosen : List TrustEdge) :
      chosen.foldl (fun row edge => row ++ [edge]) start = start ++ chosen := by
    induction chosen generalizing start with
    | nil => exact (List.append_nil start).symm
    | cons edge rest ih => rw [List.foldl_cons, ih, List.append_assoc, List.singleton_append]
  rw [adjacency, OrderedMap.getD_foldl_update, grown]
  rfl

/-- The edges of a graph. -/
def Edge (edges : List TrustEdge) (a b : String) : Prop := ∃ edge ∈ edges, edge.fromAddress = a ∧ edge.toAddress = b

theorem edge_buildTrustGraph (localeCompare : String → String → Ordering) (chainData : List ChainData) (a b : String) :
    Edge (buildTrustGraph localeCompare chainData).edges a b ↔ Trusts chainData a b := by
  rw [Edge, Trusts, buildTrustGraph]
  simp only [List.mem_flatMap, List.mem_mergeSort]
  constructor
  · rintro ⟨_, ⟨item, member, built⟩, from_a, to_b⟩
    obtain ⟨edge, listed, rfl⟩ := List.mem_map.mp built
    rw [fromAddress_canonicalEdge] at from_a
    rw [toAddress_canonicalEdge] at to_b
    exact ⟨item, member, edge, listed, from_a, to_b⟩
  · rintro ⟨item, member, edge, listed, from_a, to_b⟩
    refine ⟨canonicalEdge item.chainId edge, ⟨item, member, List.mem_map_of_mem listed⟩, ?_, ?_⟩
    · rw [fromAddress_canonicalEdge, from_a]
    · rw [toAddress_canonicalEdge, to_b]

/-! ### Keys -/

theorem visitKey_inj {a b : String} {m n : ℕ} (same : visitKey a m = visitKey b n) : a = b ∧ m = n := append_decimal_inj same

/-! ### The search -/

variable {edges : List TrustEdge} {start stop : String} {maxDepth : ℚ} {current : Visit} {queue : List Visit} {visited : List String}

def length (v : Visit) : ℕ := v.path.length

/-- A path of the graph from the start. -/
structure IsPath (edges : List TrustEdge) (start : String) (path : List String) (address : String) : Prop where
  head : path.head? = some start
  last : path.getLast? = some address
  chain : path.IsChain (Edge edges)

def Seen (visited : List String) (a : String) (n : ℕ) : Prop := visitKey a (n + 1) ∈ visited

def Waiting (queue : List Visit) (a : String) (n : ℕ) : Prop := ∃ v ∈ queue, v.address = a ∧ length v = n + 1

/-- What holds at each round of the loop. -/
structure Searching (edges : List TrustEdge) (start stop : String) (maxDepth : ℚ) (queue : List Visit) (visited : List String) :
    Prop where
  layered : Layered length queue
  paths : ∀ v ∈ queue, IsPath edges start v.path v.address
  passed : Passed (Edge edges) start stop ⌊maxDepth⌋₊ (Seen visited) (Waiting queue)

theorem expand_inr {links : List TrustEdge} {grown : List Visit} (expanded : expand start stop current links queue = .inr grown) :
    grown = queue ++ links.map (further current) ∧ ∀ next ∈ links, next.toAddress ≠ stop := by
  induction links generalizing queue with
  | nil =>
    cases expanded
    exact ⟨(List.append_nil _).symm, fun _ member => by cases member⟩
  | cons next rest ih =>
    rw [expand] at expanded
    split at expanded
    · cases expanded
    · rename_i apart
      obtain ⟨rfl, others⟩ := ih expanded
      refine ⟨?_, List.forall_mem_cons.mpr ⟨apart, others⟩⟩
      rw [List.map_cons, List.append_assoc, List.singleton_append]

theorem expand_inl {links : List TrustEdge} {found : TrustPath} (expanded : expand start stop current links queue = .inl found) :
    found.path = current.path ++ [stop] ∧ ∃ next ∈ links, next.toAddress = stop := by
  induction links generalizing queue with
  | nil => cases expanded
  | cons next rest ih =>
    rw [expand] at expanded
    split at expanded
    · rename_i reaches
      cases expanded
      refine ⟨?_, next, List.mem_cons_self, reaches⟩
      rw [further, reaches]
    · obtain ⟨path, next, member, reaches⟩ := ih expanded
      exact ⟨path, next, List.mem_cons_of_mem _ member, reaches⟩

theorem IsPath.append {path : List String} {a b : String} (isPath : IsPath edges start path a) (step : Edge edges a b) :
    IsPath edges start (path ++ [b]) b where
  head := by
    rw [List.head?_append, isPath.head]
    rfl
  last := List.getLast?_concat
  chain := by
    refine List.isChain_append.mpr ⟨isPath.chain, List.isChain_singleton b, ?_⟩
    intro x last y head
    cases head
    rw [isPath.last] at last
    cases last
    exact step

theorem IsPath.length_pos {path : List String} {a : String} (isPath : IsPath edges start path a) : 0 < path.length := by
  have head := isPath.head
  cases path with
  | nil => cases head
  | cons _ _ => exact Nat.succ_pos _

/-- A visit that is known or too deep is dropped. -/
theorem Searching.skip (searching : Searching edges start stop maxDepth (current :: queue) visited) (one : 1 ≤ maxDepth)
    (skipped : visitKey current.address current.path.length ∈ visited ∨ maxDepth < current.path.length) :
    Searching edges start stop maxDepth queue visited where
  layered := searching.layered.tail
  paths v member := searching.paths v (List.mem_cons_of_mem _ member)
  passed := by
    refine searching.passed.advance (Nat.floor_pos.mpr one) (fun a n inside known => ?_) fun a n => Or.inl
    rcases known with seen | ⟨v, member, rfl, deep⟩
    · exact .inl seen
    rcases List.mem_cons.mp member with rfl | later
    · rcases skipped with known | long
      · rw [length] at deep
        rw [deep] at known
        exact .inl known
      · rw [length] at deep
        rw [deep, ← Nat.floor_lt (by linarith)] at long
        omega
    · exact .inr ⟨v, later, rfl, deep⟩

/-- A visit that is new puts what it leads to at the end. -/
theorem Searching.push (searching : Searching edges start stop maxDepth (current :: queue) visited) (one : 1 ≤ maxDepth)
    {grown : List Visit} (expanded : expand start stop current (edges.filter fun edge => edge.fromAddress = current.address) queue =
      .inr grown) :
    Searching edges start stop maxDepth grown (Ordered.add visited (visitKey current.address current.path.length)) := by
  obtain ⟨rfl, apart⟩ := expand_inr expanded
  have isPath := searching.paths current List.mem_cons_self
  have steps {next : TrustEdge} (member : next ∈ edges.filter fun edge => edge.fromAddress = current.address) :
      Edge edges current.address next.toAddress := by
    obtain ⟨listed, starts⟩ := List.mem_filter.mp member
    exact ⟨next, listed, of_decide_eq_true starts, rfl⟩
  refine ⟨searching.layered.push fun v added => ?_, fun v member => ?_, ?_⟩
  · obtain ⟨next, -, rfl⟩ := List.mem_map.mp added
    rw [length, further, List.length_append]
    rfl
  · rcases List.mem_append.mp member with old | added
    · exact searching.paths v (List.mem_cons_of_mem _ old)
    · obtain ⟨next, listed, rfl⟩ := List.mem_map.mp added
      exact isPath.append (steps listed)
  · refine searching.passed.advance (Nat.floor_pos.mpr one) (fun a n inside known => ?_) fun a n known => ?_
    · rcases known with seen | ⟨v, member, rfl, deep⟩
      · exact .inl (Ordered.mem_add.mpr (.inl seen))
      rcases List.mem_cons.mp member with rfl | later
      · refine .inl (Ordered.mem_add.mpr (.inr ?_))
        rw [← deep, length]
      · exact .inr ⟨v, List.mem_append_left _ later, rfl, deep⟩
    · rcases Ordered.mem_add.mp known with old | new
      · exact .inl old
      · obtain ⟨rfl, deep⟩ := visitKey_inj new
        refine .inr fun b step => ?_
        obtain ⟨next, listed, starts, rfl⟩ := step
        have chosen : next ∈ edges.filter fun edge => edge.fromAddress = current.address :=
          List.mem_filter.mpr ⟨listed, decide_eq_true starts⟩
        refine ⟨apart next chosen, fun _ => .inr ⟨further current next, ?_, rfl, ?_⟩⟩
        · exact List.mem_append_right _ (List.mem_map_of_mem chosen)
        · rw [length, further, List.length_append, ← deep]
          rfl

/-- What the loop returns is a shortest path. -/
theorem Searching.shortest (searching : Searching edges start stop maxDepth queue visited) (one : 1 ≤ maxDepth)
    (other : start ≠ stop) {rounds : ℕ} {result : Option TrustPath}
    (returned : search (adjacency edges) start stop maxDepth rounds queue visited = some result) :
    Shortest (Edge edges) start stop maxDepth (result.map TrustPath.path) := by
  have nonneg : 0 ≤ maxDepth := by linarith
  induction rounds generalizing queue visited with
  | zero => cases returned
  | succ rounds ih =>
    cases queue with
    | nil =>
      cases returned
      intro n walk short
      have beyond := searching.passed.lt_of_walk (k := n) (fun a m waits => by obtain ⟨v, member, -⟩ := waits; cases member) other walk
        (Nat.le_floor short)
      exact Nat.lt_irrefl n beyond
    | cons current queue =>
      rw [search] at returned
      by_cases skipped : visitKey current.address current.path.length ∈ visited ∨ maxDepth < current.path.length
      · rw [if_pos skipped] at returned
        exact ih (searching.skip one skipped) returned
      · rw [if_neg skipped, get_adjacency] at returned
        cases expanded : expand start stop current (edges.filter fun edge => edge.fromAddress = current.address) queue with
        | inr grown =>
          rw [expanded] at returned
          exact ih (searching.push one expanded) returned
        | inl found =>
          rw [expanded] at returned
          cases returned
          obtain ⟨path, next, listed, reaches⟩ := expand_inl expanded
          obtain ⟨listed, starts⟩ := List.mem_filter.mp listed
          have whole := (searching.paths current List.mem_cons_self).append ⟨next, listed, of_decide_eq_true starts, reaches⟩
          have edges_of : found.path.length - 1 = current.path.length := by
            rw [path, List.length_append]
            rfl
          have shallow : (current.path.length : ℚ) ≤ maxDepth := not_lt.mp (not_or.mp skipped).2
          rw [Option.map_some, Shortest, edges_of]
          rw [← path] at whole
          refine ⟨whole.head, whole.last, whole.chain, shallow, fun n walk => ?_⟩
          by_contra shorter
          have inside : n ≤ ⌊maxDepth⌋₊ := Nat.le_floor (le_trans (by exact_mod_cast Nat.le_of_not_le shorter) shallow)
          have beyond := searching.passed.lt_of_walk (k := current.path.length - 1) (fun a m waits => ?_) other walk inside
          · omega
          · obtain ⟨v, member, -, deep⟩ := waits
            have least : current.path.length ≤ length v := searching.layered.first_le v member
            omega

/-! ### The end of the search -/

/-- The edges that may still be followed. -/
def pending (edges : List TrustEdge) (depth : ℕ) (visited : List String) : ℕ :=
  ∑ n ∈ Finset.range depth, edges.countP fun edge => visitKey edge.fromAddress (n + 1) ∉ visited

theorem countP_add {a : String} {m : ℕ} (new : visitKey a (m + 1) ∉ visited) (n : ℕ) :
    edges.countP (fun edge => visitKey edge.fromAddress (n + 1) ∉ visited) =
      edges.countP (fun edge => visitKey edge.fromAddress (n + 1) ∉ Ordered.add visited (visitKey a (m + 1))) +
        if n = m then edges.countP fun edge => edge.fromAddress = a else 0 := by
  induction edges with
  | nil => simp
  | cons edge rest ih =>
    rw [List.countP_cons, List.countP_cons, List.countP_cons, ih]
    by_cases same : n = m ∧ edge.fromAddress = a
    · obtain ⟨rfl, rfl⟩ := same
      simp only [new, Ordered.mem_add, or_true, not_true_eq_false, not_false_eq_true, decide_true, decide_false, if_true]
      simp only [Bool.false_eq_true, if_false]
      omega
    · have apart : visitKey edge.fromAddress (n + 1) ≠ visitKey a (m + 1) := by
        intro equal
        obtain ⟨names, depths⟩ := visitKey_inj equal
        exact same ⟨Nat.succ_injective depths, names⟩
      simp only [Ordered.mem_add, apart, or_false]
      by_cases level : n = m
      · have elsewhere : edge.fromAddress ≠ a := fun equal => same ⟨level, equal⟩
        simp only [level, elsewhere, decide_false, if_true]
        simp only [Bool.false_eq_true, if_false]
        omega
      · simp only [level, if_false]
        omega

/-- Following the edges of an address uses them up. -/
theorem pending_add (edges : List TrustEdge) {a : String} {m depth : ℕ} (new : visitKey a (m + 1) ∉ visited) (inside : m < depth) :
    pending edges depth visited =
      pending edges depth (Ordered.add visited (visitKey a (m + 1))) + (edges.filter fun edge => edge.fromAddress = a).length := by
  rw [pending, pending, Finset.sum_congr rfl fun n _ => countP_add new n, Finset.sum_add_distrib, Finset.sum_ite_eq',
    if_pos (Finset.mem_range.mpr inside), List.countP_eq_length_filter]

/-- With a round for each visit and each edge that may be followed the loop is over. -/
theorem Searching.ends (searching : Searching edges start stop maxDepth queue visited) (one : 1 ≤ maxDepth) {rounds : ℕ}
    (enough : queue.length + pending edges ⌊maxDepth⌋₊ visited < rounds) :
    ∃ result, search (adjacency edges) start stop maxDepth rounds queue visited = some result := by
  induction rounds generalizing queue visited with
  | zero => exact absurd enough (Nat.not_lt_zero _)
  | succ rounds ih =>
    cases queue with
    | nil => exact ⟨none, rfl⟩
    | cons current queue =>
      rw [search]
      by_cases skipped : visitKey current.address current.path.length ∈ visited ∨ maxDepth < current.path.length
      · rw [if_pos skipped]
        refine ih (searching.skip one skipped) ?_
        rw [List.length_cons] at enough
        omega
      · rw [if_neg skipped, get_adjacency]
        cases expanded : expand start stop current (edges.filter fun edge => edge.fromAddress = current.address) queue with
        | inl found => exact ⟨some found, rfl⟩
        | inr grown =>
          refine ih (searching.push one expanded) ?_
          obtain ⟨new, deep⟩ := not_or.mp skipped
          have positive := (searching.paths current List.mem_cons_self).length_pos
          obtain ⟨m, level⟩ : ∃ m, current.path.length = m + 1 := ⟨_, (Nat.succ_pred_eq_of_pos positive).symm⟩
          rw [level] at new deep ⊢
          have inside : m < ⌊maxDepth⌋₊ := Nat.le_floor (not_lt.mp deep)
          have used := pending_add edges new inside
          rw [(expand_inr expanded).1, List.length_append, List.length_map]
          rw [List.length_cons] at enough
          omega

/-- The search starts at the first address. -/
theorem searching_start (edges : List TrustEdge) (start stop : String) (maxDepth : ℚ) :
    Searching edges start stop maxDepth [{ address := start, path := [start], distance := .finite 0, chainIds := [] }] [] where
  layered := layered_singleton length _
  paths v member := by
    rw [List.mem_singleton.mp member]
    exact ⟨rfl, rfl, List.isChain_singleton start⟩
  passed :=
    { started := .inr ⟨_, List.mem_singleton_self _, rfl, rfl⟩
      onward := fun a n seen => absurd seen List.not_mem_nil }

/-- More rounds change nothing. -/
theorem search_mono {links : OrderedMap String (List TrustEdge)} {rounds : ℕ} {result : Option TrustPath}
    (returned : search links start stop maxDepth rounds queue visited = some result) {more : ℕ} (later : rounds ≤ more) :
    search links start stop maxDepth more queue visited = some result := by
  induction rounds generalizing queue visited more with
  | zero => cases returned
  | succ rounds ih =>
    obtain ⟨more, rfl⟩ : ∃ k, more = k + 1 := ⟨more - 1, by omega⟩
    have fewer : rounds ≤ more := Nat.le_of_succ_le_succ later
    cases queue with
    | nil => exact returned
    | cons current queue =>
      rw [search] at returned ⊢
      split
      · rename_i skipped
        rw [if_pos skipped] at returned
        exact ih returned fewer
      · rename_i looked
        rw [if_neg looked] at returned
        split
        · rename_i found expanded
          rw [expanded] at returned
          exact returned
        · rename_i grown expanded
          rw [expanded] at returned
          exact ih returned fewer

/-- A path is found just where there is one of so many edges, and it is a shortest one. -/
theorem findTrustPath_shortest (localeCompare : String → String → Ordering) (chainData : List ChainData)
    (fromAddress toAddress : String) (maxDepth : ℚ) (one : 1 ≤ maxDepth) :
    ∃ result, Returns (buildTrustGraph localeCompare chainData) fromAddress toAddress maxDepth result ∧
      Shortest (Trusts chainData) (canonicalAddress fromAddress) (canonicalAddress toAddress) maxDepth
        (result.map TrustPath.path) := by
  have edges_eq : Edge (buildTrustGraph localeCompare chainData).edges = Trusts chainData :=
    funext fun a => funext fun b => propext (edge_buildTrustGraph localeCompare chainData a b)
  rw [← edges_eq]
  generalize (buildTrustGraph localeCompare chainData) = graph
  simp only [Returns, findTrustPath]
  generalize canonicalAddress fromAddress = start
  generalize canonicalAddress toAddress = stop
  by_cases same : start = stop
  · subst same
    simp only [if_true]
    refine ⟨_, ⟨0, fun _ _ => rfl⟩, rfl, rfl, List.isChain_singleton start, ?_, fun n _ => Nat.zero_le n⟩
    rw [List.length_singleton, Nat.sub_self, Nat.cast_zero]
    linarith
  · simp only [same, if_false]
    have searching := searching_start graph.edges start stop maxDepth
    obtain ⟨result, returned⟩ := searching.ends one (Nat.lt_succ_self _)
    exact ⟨result, ⟨_, fun more later => search_mono returned later⟩, searching.shortest one same returned⟩

/-- For data of one chain and the default depth. -/
theorem findTrustPath_shortest_of_one : ∃ result,
    Returns (buildTrustGraph compare [⟨"a", some [⟨"x", "y", .undefined⟩]⟩]) "x" "y" 6 result ∧
      Shortest (Trusts [⟨"a", some [⟨"x", "y", .undefined⟩]⟩]) (canonicalAddress "x") (canonicalAddress "y") 6
        (result.map TrustPath.path) :=
  findTrustPath_shortest compare [⟨"a", some [⟨"x", "y", .undefined⟩]⟩] "x" "y" 6 (by norm_num)

end Octraban.TrustNetwork
