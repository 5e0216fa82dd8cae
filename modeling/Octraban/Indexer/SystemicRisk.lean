import Octraban.Core.BreadthFirst
import Octraban.Reputation.Score

/-! systemicRisk.ts: the failure of a protocol spreads to those that depend on it. -/
namespace Octraban.SystemicRisk
open JavaScript BreadthFirst

inductive CriticalityLevel where
  | critical
  | high
  | medium
  | low
  deriving DecidableEq

inductive FailureType where
  | hack
  | oracle_failure
  | governance_attack
  | bank_run
  deriving DecidableEq

structure DependencyEdge where
  fromAddress : String
  toAddress : String
  criticality : CriticalityLevel
  deriving DecidableEq

/-- The protocols, by their addresses, with their names. -/
structure SystemDependencyGraph where
  protocols : OrderedMap String String
  edges : List DependencyEdge

structure AffectedProtocol where
  address : String
  distance : ℕ
  impact : String
  valueAtRisk : String
  expectedLoss : String
  name : String

structure CascadeResult where
  directlyAffected : ℕ
  transitivelyAffected : ℕ
  totalValueAtRisk : String
  affectedProtocols : List AffectedProtocol
  systemicImportanceScore : Number
  estimatedRecoveryTime : String

/-- What a call meets: the draws of `Math.random()`, the cached values and `String` of a number. -/
structure Environment where
  draws : ℕ → Number
  tvlCache : OrderedMap String Number
  string : Number → String

def failureImpact : FailureType → CriticalityLevel → Number
  | .hack, .critical => roundRat (9 / 10)
  | .hack, .high => roundRat (6 / 10)
  | .hack, .medium => roundRat (3 / 10)
  | .hack, .low => roundRat (5 / 100)
  | .oracle_failure, .critical => roundRat (95 / 100)
  | .oracle_failure, .high => roundRat (7 / 10)
  | .oracle_failure, .medium => roundRat (2 / 10)
  | .oracle_failure, .low => roundRat (2 / 100)
  | .governance_attack, .critical => roundRat (8 / 10)
  | .governance_attack, .high => roundRat (5 / 10)
  | .governance_attack, .medium => roundRat (3 / 10)
  | .governance_attack, .low => roundRat (1 / 10)
  | .bank_run, .critical => roundRat (7 / 10)
  | .bank_run, .high => roundRat (4 / 10)
  | .bank_run, .medium => roundRat (15 / 100)
  | .bank_run, .low => roundRat (5 / 100)

def lossRatio : FailureType → Number
  | .hack => roundRat (5 / 10)
  | .oracle_failure => roundRat (3 / 10)
  | .governance_attack => roundRat (6 / 10)
  | .bank_run => roundRat (4 / 10)

def recoveryDays : FailureType → ℕ
  | .hack => 14
  | .oracle_failure => 3
  | .governance_attack => 21
  | .bank_run => 7

/-! ### The spreading -/

structure Hop where
  address : String
  distance : ℕ
  deriving DecidableEq

/-- What the loop keeps, and how many draws it has made. -/
structure Search where
  queue : List Hop
  visited : List String
  affected : List String
  drawn : ℕ

section
variable (env : Environment) (failureType : FailureType)

/-- The edges to an address whose draws succeed, and how many draws are made then. -/
def draw (visited : List String) (address : String) : List DependencyEdge → ℕ → List DependencyEdge × ℕ
  | [], drawn => ([], drawn)
  | edge :: rest, drawn =>
    if edge.toAddress = address ∧ edge.fromAddress ∉ visited then
      let others := draw visited address rest (drawn + 1)
      if (env.draws drawn).lt (failureImpact failureType edge.criticality) then (edge :: others.1, others.2) else others
    else draw visited address rest drawn

/-- One round of the loop. -/
def step (edges : List DependencyEdge) (s : Search) : Search :=
  match s.queue with
  | [] => s
  | current :: queue =>
    if current.address ∈ s.visited then { s with queue }
    else
      let visited := s.visited ++ [current.address]
      let hits := draw env failureType visited current.address edges s.drawn
      { queue := queue ++ hits.1.map fun edge => ⟨edge.fromAddress, current.distance + 1⟩
        visited
        affected := if 0 < current.distance then Ordered.add s.affected current.address else s.affected
        drawn := hits.2 }

/-- The loop; none where it is not over after so many rounds. -/
def search (edges : List DependencyEdge) : ℕ → Search → Option Search
  | 0, _ => none
  | rounds + 1, s => if s.queue = [] then some s else search edges rounds (step env failureType edges s)

def started (failedProtocol : String) : Search := ⟨[⟨failedProtocol, 0⟩], [], [], 0⟩

/-! ### The report -/

def getTvl (address : String) : Number := (env.tvlCache.get address).getD (.finite 0)

def getTotalEcosystemTvl : Number := (env.tvlCache.entries.map Prod.snd).foldl Number.add (.finite 0)

/-- `value.toFixed(2)` -/
def toFixed : Number → String
  | .finite x => if |x| < 10 ^ 21 then Scoring.fixed 2 x else env.string (.finite x)
  | x => env.string x

def formatUsd (value : Number) : String :=
  if (Number.finite 1000000000).le value then toFixed env (value.div (.finite 1000000000)) ++ "B USD"
  else if (Number.finite 1000000).le value then toFixed env (value.div (.finite 1000000)) ++ "M USD"
  else if (Number.finite 1000).le value then toFixed env (value.div (.finite 1000)) ++ "K USD"
  else toFixed env value ++ " USD"

/-- Whether the address itself depends on the failed protocol. -/
def hasDirect (edges : List DependencyEdge) (failedProtocol address : String) : Bool :=
  edges.any fun e => e.toAddress = failedProtocol ∧ e.fromAddress = address

def minDist (edges : List DependencyEdge) (failedProtocol : String) (affected : List String) (address : String) : ℕ :=
  if hasDirect edges failedProtocol address then 1
  else if edges.any fun e => e.fromAddress ∈ affected ∧ e.toAddress = address then 2
  else 3

def detail (graph : SystemDependencyGraph) (failedProtocol : String) (affected : List String) (address : String) : AffectedProtocol :=
  let distance := minDist graph.edges failedProtocol affected address
  let tvl := getTvl env address
  { address
    distance
    impact := if distance ≤ 1 then "high" else if distance ≤ 2 then "medium" else "low"
    valueAtRisk := formatUsd env tvl
    expectedLoss := formatUsd env (tvl.mul (lossRatio failureType))
    name := (graph.protocols.get address).getD (String.ofList (address.toList.take 8)) }

def report (graph : SystemDependencyGraph) (failedProtocol : String) (affected : List String) : CascadeResult :=
  let totalEcosystemTvl := getTotalEcosystemTvl env
  let totalValueAtRisk := (affected.map (getTvl env)).foldl Number.add (.finite 0)
  { directlyAffected := (affected.filter fun address => hasDirect graph.edges failedProtocol address).length
    transitivelyAffected := (affected.filter fun address => !hasDirect graph.edges failedProtocol address).length
    totalValueAtRisk := formatUsd env totalValueAtRisk
    affectedProtocols := (affected.map (detail env failureType graph failedProtocol affected)).mergeSort fun a b => b.distance ≤ a.distance
    systemicImportanceScore :=
      if (Number.finite 0).lt totalEcosystemTvl then
        (((totalValueAtRisk.div totalEcosystemTvl).mul (.finite 100)).round).div (.finite 100)
      else .finite 0
    estimatedRecoveryTime := String.ofList (decimal (recoveryDays failureType)) ++ " days" }

/-- `simulateCascade`, by rounds of its loop. -/
def simulateCascade (rounds : ℕ) (graph : SystemDependencyGraph) (failedProtocol : String) : Option (Option CascadeResult) :=
  if failedProtocol ∈ graph.protocols.keys then
    (search env failureType graph.edges rounds (started failedProtocol)).map fun s =>
      some (report env failureType graph failedProtocol s.affected)
  else some none

/-! ### What spreads -/

def run (edges : List DependencyEdge) : ℕ → Search → Search
  | 0, s => s
  | rounds + 1, s => run edges rounds (step env failureType edges s)

/-- The edges whose draws succeed in the next round. -/
def hits (edges : List DependencyEdge) (s : Search) : List DependencyEdge :=
  match s.queue with
  | [] => []
  | current :: _ =>
    if current.address ∈ s.visited then []
    else (draw env failureType (s.visited ++ [current.address]) current.address edges s.drawn).1

/-- Those whose draws succeed in so many rounds. -/
def fired (edges : List DependencyEdge) : ℕ → Search → List DependencyEdge
  | 0, _ => []
  | rounds + 1, s => hits env failureType edges s ++ fired edges rounds (step env failureType edges s)

/-- An address that the next round visits for the first time. -/
def firstVisit (s : Search) : List Hop :=
  match s.queue with
  | [] => []
  | current :: _ => if current.address ∈ s.visited then [] else [current]

/-- The first visits of so many rounds. -/
def firstVisits (edges : List DependencyEdge) : ℕ → Search → List Hop
  | 0, _ => []
  | rounds + 1, s => firstVisit s ++ firstVisits edges rounds (step env failureType edges s)

/-- All edges over which the failure spreads: there are no more rounds than that. -/
def propagation (graph : SystemDependencyGraph) (failedProtocol : String) : List DependencyEdge :=
  fired env failureType graph.edges (graph.edges.length + 1) (started failedProtocol)

/-- Where the failure arrives first, and after how many hops. -/
def arrivals (graph : SystemDependencyGraph) (failedProtocol : String) : List Hop :=
  firstVisits env failureType graph.edges (graph.edges.length + 1) (started failedProtocol)

end

/-- The failure of the one hits the other. -/
def Hit (edges : List DependencyEdge) (a b : String) : Prop := ∃ edge ∈ edges, edge.toAddress = a ∧ edge.fromAddress = b

def DependsOn (edges : List DependencyEdge) (a b : String) : Prop := ∃ edge ∈ edges, edge.fromAddress = a ∧ edge.toAddress = b

section
variable (env : Environment) (failureType : FailureType) (graph : SystemDependencyGraph) (failedProtocol : String)

/-- The propagation leads to the address in so many hops. -/
def Reaches (hops : ℕ) (address : String) : Prop :=
  Walk (Hit (propagation env failureType graph failedProtocol)) failedProtocol hops address

/-- A protocol other than the failed one that the propagation reaches. -/
def Affected (address : String) : Prop :=
  address ≠ failedProtocol ∧ ∃ hops, Reaches env failureType graph failedProtocol hops address

/-- Each protocol reached is reported once, at no less than its shortest chain of dependencies and no more than its hops. -/
structure IsCascade (result : CascadeResult) : Prop where
  reached : ∀ address, (∃ entry ∈ result.affectedProtocols, entry.address = address) ↔ Affected env failureType graph failedProtocol address
  once : (result.affectedProtocols.map AffectedProtocol.address).Nodup
  chained : ∀ entry ∈ result.affectedProtocols, ∃ n ≤ entry.distance, Walk (DependsOn graph.edges) entry.address n failedProtocol
  early : ∀ entry ∈ result.affectedProtocols, ∀ hops,
    ⟨entry.address, hops⟩ ∈ arrivals env failureType graph failedProtocol → entry.distance ≤ hops

/-- The call comes back with the outcome, however many rounds it may take. -/
def Returns (outcome : Option CascadeResult) : Prop :=
  ∃ rounds, ∀ more ≥ rounds, simulateCascade env failureType more graph failedProtocol = some outcome

/-- Where one, two or three is a distance of the address: the report does not know any other. -/
inductive Estimated (address : String) : Prop where
  | direct : DependsOn graph.edges address failedProtocol → Estimated address
  | middle {other} : Affected env failureType graph failedProtocol other → DependsOn graph.edges other address →
      Walk (DependsOn graph.edges) address 2 failedProtocol → Estimated address
  | far {n} : (∀ other, Affected env failureType graph failedProtocol other → ¬ DependsOn graph.edges other address) →
      n ≤ 3 → Walk (DependsOn graph.edges) address n failedProtocol →
      (∀ hops, Reaches env failureType graph failedProtocol hops address → 3 ≤ hops) → Estimated address

end

variable {env : Environment} {failureType : FailureType} {edges spread : List DependencyEdge} {failedProtocol address : String}
  {visits : List Hop} {s : Search} {rounds : ℕ}

/-! ### Draws -/

theorem mem_draw {visited : List String} {drawn : ℕ} {edge : DependencyEdge}
    (hit : edge ∈ (draw env failureType visited address edges drawn).1) :
    edge ∈ edges ∧ edge.toAddress = address ∧ edge.fromAddress ∉ visited := by
  induction edges generalizing drawn with
  | nil => cases hit
  | cons first rest ih =>
    rw [draw] at hit
    split at hit
    · rename_i eligible
      dsimp only at hit
      split at hit
      · rcases List.mem_cons.mp hit with rfl | later
        · exact ⟨List.mem_cons_self, eligible⟩
        · exact ⟨List.mem_cons_of_mem _ (ih later).1, (ih later).2⟩
      · exact ⟨List.mem_cons_of_mem _ (ih hit).1, (ih hit).2⟩
    · exact ⟨List.mem_cons_of_mem _ (ih hit).1, (ih hit).2⟩

theorem length_draw_le (visited : List String) (address : String) (edges : List DependencyEdge) (drawn : ℕ) :
    (draw env failureType visited address edges drawn).1.length ≤ edges.countP fun edge => edge.toAddress = address := by
  induction edges generalizing drawn with
  | nil => exact Nat.le_refl 0
  | cons first rest ih =>
    rw [draw, List.countP_cons]
    split
    · rename_i eligible
      have others := ih (drawn + 1)
      simp only [eligible.1, decide_true, if_true]
      split
      · exact Nat.succ_le_succ others
      · exact Nat.le_succ_of_le others
    · exact Nat.le_add_right_of_le (ih drawn)

/-! ### The end of the loop -/

/-- A bound on the rounds to come. -/
def pending (edges : List DependencyEdge) (s : Search) : ℕ := s.queue.length + edges.countP fun edge => edge.toAddress ∉ s.visited

theorem countP_visit {visited : List String} (new : address ∉ visited) (edges : List DependencyEdge) :
    edges.countP (fun edge => edge.toAddress ∉ visited) =
      edges.countP (fun edge => edge.toAddress ∉ visited ++ [address]) + edges.countP fun edge => edge.toAddress = address := by
  induction edges with
  | nil => rfl
  | cons edge rest ih =>
    rw [List.countP_cons, List.countP_cons, List.countP_cons, ih]
    by_cases own : edge.toAddress = address
    · simp [own, new]
      omega
    · simp [own]
      omega

theorem pending_step {current : Hop} {queue : List Hop} (waits : s.queue = current :: queue) :
    pending edges (step env failureType edges s) < pending edges s := by
  rw [pending, pending, step, waits]
  dsimp only
  split
  · exact Nat.add_lt_add_right (Nat.lt_succ_self _) _
  · rename_i new
    have drawn := @length_draw_le env failureType (s.visited ++ [current.address]) current.address edges s.drawn
    rw [countP_visit new edges]
    simp only [List.length_append, List.length_map, List.length_cons]
    omega

theorem step_of_empty (empty : s.queue = []) : step env failureType edges s = s := by rw [step, empty]

theorem run_of_empty (empty : s.queue = []) (rounds : ℕ) : run env failureType edges rounds s = s := by
  induction rounds with
  | zero => rfl
  | succ rounds ih => rw [run, step_of_empty empty, ih]

/-- The loop is over after so many rounds. -/
theorem search_eq {n : ℕ} (enough : pending edges s ≤ n) (more : n < rounds) :
    search env failureType edges rounds s = some (run env failureType edges n s) ∧ (run env failureType edges n s).queue = [] := by
  induction rounds generalizing n s with
  | zero => exact absurd more (Nat.not_lt_zero n)
  | succ rounds ih =>
    rw [search]
    cases waits : s.queue with
    | nil =>
      rw [run_of_empty waits, if_pos rfl]
      exact ⟨rfl, waits⟩
    | cons current queue =>
      rw [if_neg (List.cons_ne_nil _ _)]
      have fewer := @pending_step env failureType edges s current queue waits
      obtain ⟨m, rfl⟩ : ∃ m, n = m + 1 := ⟨n - 1, by omega⟩
      exact ih (Nat.le_of_lt_succ (fewer.trans_le enough)) (Nat.lt_of_succ_lt_succ more)

theorem pending_started_le : pending edges (started failedProtocol) ≤ edges.length + 1 := by
  have counted := List.countP_le_length (p := fun edge : DependencyEdge => edge.toAddress ∉ (started failedProtocol).visited) (l := edges)
  rw [pending, Nat.add_comm]
  exact Nat.succ_le_succ counted

/-! ### What the loop keeps -/

/-- The state after the visits, where the failure has spread over the edges so far. -/
structure Flooding (edges : List DependencyEdge) (failedProtocol : String) (spread : List DependencyEdge) (visits : List Hop)
    (s : Search) : Prop where
  visited : s.visited = visits.map Hop.address
  affected : s.affected = (visits.filter fun hop => 0 < hop.distance).map Hop.address
  once : s.visited.Nodup
  flood : Flood (Hit spread) failedProtocol (fun a n => ⟨a, n⟩ ∈ visits) fun a n => ⟨a, n⟩ ∈ s.queue
  layered : Layered Hop.distance s.queue
  before : ∀ v ∈ visits, ∀ w ∈ s.queue, v.distance ≤ w.distance
  among : ∀ edge ∈ spread, edge ∈ edges ∧ edge.toAddress ∈ s.visited

theorem flooding_started (edges : List DependencyEdge) (failedProtocol : String) :
    Flooding edges failedProtocol [] [] (started failedProtocol) where
  visited := rfl
  affected := rfl
  once := List.nodup_nil
  flood :=
    { started := .inr List.mem_cons_self
      walks := by
        rintro a n (met | met)
        · cases met
        · cases List.mem_singleton.mp met
          exact .here
      onward := fun a n met => nomatch met }
  layered := layered_singleton Hop.distance _
  before v member := nomatch member
  among edge member := nomatch member

theorem Flooding.mem_visited (flooding : Flooding edges failedProtocol spread visits s) :
    address ∈ s.visited ↔ ∃ n, ⟨address, n⟩ ∈ visits := by
  rw [flooding.visited, List.mem_map]
  constructor
  · rintro ⟨⟨_, n⟩, member, rfl⟩
    exact ⟨n, member⟩
  · rintro ⟨n, member⟩
    exact ⟨_, member, rfl⟩

theorem Flooding.notMem_affected (flooding : Flooding edges failedProtocol spread visits s) (new : address ∉ s.visited) :
    address ∉ s.affected := by
  rw [flooding.visited] at new
  rw [flooding.affected]
  exact fun member => new (List.map_subset _ List.filter_sublist.subset member)

/-- What is drawn from the queue a second time. -/
theorem Flooding.drop {current : Hop} {queue : List Hop} (flooding : Flooding edges failedProtocol spread visits s)
    (waits : s.queue = current :: queue) (old : current.address ∈ s.visited) :
    Flooding edges failedProtocol spread visits { s with queue } where
  visited := flooding.visited
  affected := flooding.affected
  once := flooding.once
  flood := by
    obtain ⟨m, known⟩ := flooding.mem_visited.mp old
    have early : m ≤ current.distance := flooding.before _ known current (waits ▸ List.mem_cons_self)
    refine flooding.flood.drop known early (fun b n member => ?_) fun b n member => ?_
    · rw [waits]
      exact List.mem_cons_of_mem _ member
    · rw [waits] at member
      rcases List.mem_cons.mp member with rfl | later
      · exact .inr ⟨rfl, rfl⟩
      · exact .inl later
  layered := (waits ▸ flooding.layered).tail
  before v met w member := flooding.before v met w (waits ▸ List.mem_cons_of_mem _ member)
  among := flooding.among

/-- The first visit of an address spreads the failure over the edges whose draws succeed. -/
theorem Flooding.visit {current : Hop} {queue : List Hop} {drawn : ℕ} {drew : List DependencyEdge}
    (flooding : Flooding edges failedProtocol spread visits s) (waits : s.queue = current :: queue)
    (new : current.address ∉ s.visited) (drew_mem : ∀ edge ∈ drew, edge ∈ edges ∧ edge.toAddress = current.address) :
    Flooding edges failedProtocol (spread ++ drew) (visits ++ [current])
      { queue := queue ++ drew.map fun edge => ⟨edge.fromAddress, current.distance + 1⟩
        visited := s.visited ++ [current.address]
        affected := if 0 < current.distance then Ordered.add s.affected current.address else s.affected
        drawn } where
  visited := by rw [flooding.visited, List.map_append, List.map_singleton]
  affected := by
    rw [List.filter_append, List.map_append, ← flooding.affected]
    by_cases far : 0 < current.distance
    · simp [far, Ordered.add, flooding.notMem_affected new]
    · simp [far]
  once := flooding.once.append (List.nodup_singleton _) (List.disjoint_singleton.mpr new)
  flood := by
    have head : (⟨current.address, current.distance⟩ : Hop) ∈ s.queue := waits ▸ List.mem_cons_self
    refine flooding.flood.visit (k := current.distance) (a := current.address) head ?_ ?_ ?_ ?_ ?_ ?_ ?_
    · exact fun n member => new (flooding.mem_visited.mpr ⟨n, member⟩)
    · rintro b ⟨edge, member, ends, -⟩
      exact new (ends ▸ (flooding.among edge member).2)
    · intro b n
      rw [List.mem_append, List.mem_singleton, Hop.mk.injEq]
    · intro b n member
      rw [waits] at member
      rcases List.mem_cons.mp member with rfl | later
      · exact .inr ⟨rfl, rfl⟩
      · exact .inl (List.mem_append_left _ later)
    · intro b n member
      rcases List.mem_append.mp member with later | fresh
      · exact .inl (waits ▸ List.mem_cons_of_mem _ later)
      · obtain ⟨edge, hit, same⟩ := List.mem_map.mp fresh
        cases same
        exact .inr ⟨⟨edge, List.mem_append_right _ hit, (drew_mem edge hit).2, rfl⟩, rfl⟩
    · rintro b c ⟨edge, member, ends⟩
      exact ⟨edge, List.mem_append_left _ member, ends⟩
    · rintro b c ⟨edge, member, rfl, rfl⟩
      rcases List.mem_append.mp member with old | hit
      · exact .inl ⟨edge, old, rfl, rfl⟩
      · exact .inr ⟨(drew_mem edge hit).2, List.mem_append_right _ (List.mem_map_of_mem hit)⟩
  layered := by
    refine (waits ▸ flooding.layered).push fun hop member => ?_
    obtain ⟨edge, -, rfl⟩ := List.mem_map.mp member
    rfl
  before v met w member := by
    have passed : v.distance ≤ current.distance := by
      rcases List.mem_append.mp met with old | own
      · exact flooding.before v old current (waits ▸ List.mem_cons_self)
      · exact Nat.le_of_eq (congrArg _ (List.mem_singleton.mp own))
    refine passed.trans ?_
    rcases List.mem_append.mp member with later | fresh
    · exact (waits ▸ flooding.layered : Layered Hop.distance (current :: queue)).first_le w (List.mem_cons_of_mem _ later)
    · obtain ⟨edge, -, rfl⟩ := List.mem_map.mp fresh
      exact Nat.le_succ _
  among edge member := by
    rcases List.mem_append.mp member with old | hit
    · exact ⟨(flooding.among edge old).1, List.mem_append_left _ (flooding.among edge old).2⟩
    · rw [(drew_mem edge hit).2]
      exact ⟨(drew_mem edge hit).1, List.mem_append_right _ List.mem_cons_self⟩

theorem Flooding.step (flooding : Flooding edges failedProtocol spread visits s) :
    Flooding edges failedProtocol (spread ++ hits env failureType edges s) (visits ++ firstVisit s)
      (SystemicRisk.step env failureType edges s) := by
  rw [hits, firstVisit, SystemicRisk.step]
  cases waits : s.queue with
  | nil =>
    dsimp only
    rw [List.append_nil, List.append_nil]
    exact flooding
  | cons current queue =>
    dsimp only
    split
    · rename_i old
      rw [List.append_nil, List.append_nil]
      exact flooding.drop waits old
    · rename_i new
      exact flooding.visit waits new fun edge hit => ⟨(mem_draw hit).1, (mem_draw hit).2.1⟩

theorem Flooding.run (flooding : Flooding edges failedProtocol spread visits s) (env : Environment) (failureType : FailureType)
    (rounds : ℕ) :
    Flooding edges failedProtocol (spread ++ fired env failureType edges rounds s)
      (visits ++ firstVisits env failureType edges rounds s) (SystemicRisk.run env failureType edges rounds s) := by
  induction rounds generalizing spread visits s with
  | zero =>
    rw [fired, firstVisits, List.append_nil, List.append_nil]
    exact flooding
  | succ rounds ih =>
    rw [fired, firstVisits, ← List.append_assoc, ← List.append_assoc]
    exact ih flooding.step

/-! ### Arrivals -/

/-- An address is visited first at the end of the shortest way. -/
theorem Flooding.mem_iff (flooding : Flooding edges failedProtocol spread visits s) (empty : s.queue = []) {n : ℕ} :
    ⟨address, n⟩ ∈ visits ↔
      Walk (Hit spread) failedProtocol n address ∧ ∀ m, Walk (Hit spread) failedProtocol m address → n ≤ m := by
  have done : ∀ a m, ¬ (⟨a, m⟩ : Hop) ∈ s.queue := by simp [empty]
  constructor
  · intro member
    refine ⟨flooding.flood.walks address n (.inl member), fun m walk => ?_⟩
    obtain ⟨first, early, known⟩ := flooding.flood.seen_of_walk done walk
    have same := List.inj_on_of_nodup_map (flooding.visited ▸ flooding.once) member known rfl
    rw [Hop.mk.injEq] at same
    exact same.2.trans_le early
  · rintro ⟨walk, least⟩
    obtain ⟨first, early, known⟩ := flooding.flood.seen_of_walk done walk
    have late := least first (flooding.flood.walks address first (.inl known))
    exact Nat.le_antisymm early late ▸ known

theorem Flooding.exists_mem (flooding : Flooding edges failedProtocol spread visits s) (empty : s.queue = []) {n : ℕ}
    (walk : Walk (Hit spread) failedProtocol n address) : ∃ m ≤ n, ⟨address, m⟩ ∈ visits :=
  flooding.flood.seen_of_walk (by simp [empty]) walk

theorem Flooding.mem_affected (flooding : Flooding edges failedProtocol spread visits s) (empty : s.queue = []) :
    address ∈ s.affected ↔ address ≠ failedProtocol ∧ ∃ n, Walk (Hit spread) failedProtocol n address := by
  rw [flooding.affected, List.mem_map]
  constructor
  · rintro ⟨⟨_, n⟩, member, rfl⟩
    obtain ⟨met, positive⟩ := List.mem_filter.mp member
    obtain ⟨walk, least⟩ := (flooding.mem_iff empty).mp met
    refine ⟨?_, n, walk⟩
    rintro rfl
    exact absurd (of_decide_eq_true positive) (Nat.not_lt_of_le (least 0 .here))
  · rintro ⟨apart, n, walk⟩
    obtain ⟨m, -, met⟩ := flooding.exists_mem empty walk
    refine ⟨⟨address, m⟩, List.mem_filter.mpr ⟨met, decide_eq_true ?_⟩, rfl⟩
    exact ((flooding.mem_iff empty).mp met).1.pos apart

theorem Flooding.nodup_affected (flooding : Flooding edges failedProtocol spread visits s) : s.affected.Nodup := by
  have once := flooding.visited ▸ flooding.once
  rw [flooding.affected]
  exact once.sublist (List.filter_sublist.map _)

/-! ### The distances -/

theorem hasDirect_iff : hasDirect edges failedProtocol address ↔ DependsOn edges address failedProtocol := by
  simp [hasDirect, DependsOn, and_comm]

theorem minDist_direct {affected : List String} (direct : DependsOn edges address failedProtocol) :
    minDist edges failedProtocol affected address = 1 := if_pos (hasDirect_iff.mpr direct)

theorem minDist_middle {affected : List String} {other : String} (far : ¬ DependsOn edges address failedProtocol)
    (member : other ∈ affected) (depends : DependsOn edges other address) : minDist edges failedProtocol affected address = 2 := by
  obtain ⟨edge, known, rfl, ends⟩ := depends
  rw [minDist, if_neg (hasDirect_iff.not.mpr far), if_pos]
  exact List.any_eq_true.mpr ⟨edge, known, decide_eq_true ⟨member, ends⟩⟩

theorem minDist_far {affected : List String} (far : ¬ DependsOn edges address failedProtocol)
    (none : ∀ other ∈ affected, ¬ DependsOn edges other address) : minDist edges failedProtocol affected address = 3 := by
  rw [minDist, if_neg (hasDirect_iff.not.mpr far), if_neg]
  intro some
  obtain ⟨edge, known, both⟩ := List.any_eq_true.mp some
  have ends := of_decide_eq_true both
  exact none _ ends.1 ⟨edge, known, rfl, ends.2⟩

variable {graph : SystemDependencyGraph}

theorem two_le_hops {hops : ℕ} (among : ∀ edge ∈ propagation env failureType graph failedProtocol, edge ∈ graph.edges)
    (apart : address ≠ failedProtocol) (far : ¬ DependsOn graph.edges address failedProtocol)
    (reaches : Reaches env failureType graph failedProtocol hops address) : 2 ≤ hops := by
  refine Walk.two_le reaches apart ?_
  rintro ⟨edge, member, ends, starts⟩
  exact far ⟨edge, among edge member, starts, ends⟩

/-- The distance that is reported lies between the shortest chain and the hops only as estimated. -/
theorem minDist_iff {affected : List String} (known : ∀ other, other ∈ affected ↔ Affected env failureType graph failedProtocol other)
    (among : ∀ edge ∈ propagation env failureType graph failedProtocol, edge ∈ graph.edges) (apart : address ≠ failedProtocol) :
    ((∃ n ≤ minDist graph.edges failedProtocol affected address, Walk (DependsOn graph.edges) address n failedProtocol) ∧
        ∀ hops, Reaches env failureType graph failedProtocol hops address →
          minDist graph.edges failedProtocol affected address ≤ hops) ↔
      Estimated env failureType graph failedProtocol address := by
  by_cases direct : DependsOn graph.edges address failedProtocol
  · rw [minDist_direct direct]
    refine ⟨fun _ => .direct direct, fun _ => ⟨⟨1, Nat.le_refl 1, .next .here direct⟩, fun hops reaches => ?_⟩⟩
    exact Walk.pos reaches apart
  · by_cases depended : ∃ other, Affected env failureType graph failedProtocol other ∧ DependsOn graph.edges other address
    · obtain ⟨other, hit, depends⟩ := depended
      rw [minDist_middle direct ((known other).mpr hit) depends]
      constructor
      · rintro ⟨⟨n, short, chain⟩, -⟩
        have long := chain.two_le apart.symm direct
        exact .middle hit depends (Nat.le_antisymm short long ▸ chain)
      · rintro (direct' | ⟨-, -, chain⟩ | ⟨none, -⟩)
        · exact absurd direct' direct
        · exact ⟨⟨2, Nat.le_refl 2, chain⟩, fun hops reaches => two_le_hops among apart direct reaches⟩
        · exact absurd depends (none other hit)
    · have none : ∀ other, Affected env failureType graph failedProtocol other → ¬ DependsOn graph.edges other address :=
        fun other hit depends => depended ⟨other, hit, depends⟩
      rw [minDist_far direct fun other member => none other ((known other).mp member)]
      constructor
      · rintro ⟨⟨n, short, chain⟩, late⟩
        exact .far none short chain late
      · rintro (direct' | ⟨hit, depends, -⟩ | ⟨-, short, chain, late⟩)
        · exact absurd direct' direct
        · exact absurd depends (none _ hit)
        · exact ⟨⟨_, short, chain⟩, late⟩

/-! ### The report -/

theorem flooding_end (env : Environment) (failureType : FailureType) (graph : SystemDependencyGraph) (failedProtocol : String) :
    Flooding graph.edges failedProtocol (propagation env failureType graph failedProtocol)
      (arrivals env failureType graph failedProtocol)
      (run env failureType graph.edges (graph.edges.length + 1) (started failedProtocol)) := by
  have flooding := (flooding_started graph.edges failedProtocol).run env failureType (graph.edges.length + 1)
  rw [List.nil_append, List.nil_append] at flooding
  exact flooding

theorem arrives_iff {hops : ℕ} : ⟨address, hops⟩ ∈ arrivals env failureType graph failedProtocol ↔
    Reaches env failureType graph failedProtocol hops address ∧
      ∀ others, Reaches env failureType graph failedProtocol others address → hops ≤ others :=
  (flooding_end env failureType graph failedProtocol).mem_iff (search_eq pending_started_le (Nat.lt_succ_self _)).2

theorem arrives_late_iff {distance : ℕ} :
    (∀ hops, ⟨address, hops⟩ ∈ arrivals env failureType graph failedProtocol → distance ≤ hops) ↔
      ∀ hops, Reaches env failureType graph failedProtocol hops address → distance ≤ hops := by
  constructor
  · intro early hops reaches
    obtain ⟨least, before, arrival⟩ := (flooding_end env failureType graph failedProtocol).exists_mem
      (search_eq pending_started_le (Nat.lt_succ_self _)).2 reaches
    exact (early least arrival).trans before
  · exact fun early hops arrival => early hops (arrives_iff.mp arrival).1

theorem mem_report {affected : List String} {entry : AffectedProtocol} :
    entry ∈ (report env failureType graph failedProtocol affected).affectedProtocols ↔
      ∃ address ∈ affected, detail env failureType graph failedProtocol affected address = entry := by
  rw [report, (List.mergeSort_perm _ _).mem_iff, List.mem_map]

/-- What the search leaves is reported. -/
theorem isCascade_iff {affected : List String} (nodup : affected.Nodup)
    (known : ∀ other, other ∈ affected ↔ Affected env failureType graph failedProtocol other)
    (among : ∀ edge ∈ propagation env failureType graph failedProtocol, edge ∈ graph.edges) :
    IsCascade env failureType graph failedProtocol (report env failureType graph failedProtocol affected) ↔
      ∀ address, Affected env failureType graph failedProtocol address → Estimated env failureType graph failedProtocol address := by
  constructor
  · intro cascade address hit
    have entry : detail env failureType graph failedProtocol affected address ∈ _ := mem_report.mpr ⟨address, (known address).mpr hit, rfl⟩
    exact (minDist_iff known among hit.1).mp ⟨cascade.chained _ entry, arrives_late_iff.mp (cascade.early _ entry)⟩
  · intro estimated
    refine ⟨fun address => ?_, ?_, fun entry member => ?_, fun entry member => ?_⟩
    · constructor
      · rintro ⟨entry, member, rfl⟩
        obtain ⟨address, hit, rfl⟩ := mem_report.mp member
        exact (known address).mp hit
      · exact fun hit => ⟨_, mem_report.mpr ⟨address, (known address).mpr hit, rfl⟩, rfl⟩
    · have same : (affected.map (detail env failureType graph failedProtocol affected)).map AffectedProtocol.address = affected := by
        rw [List.map_map]
        exact List.map_id affected
      refine ((List.mergeSort_perm _ _).map AffectedProtocol.address).nodup_iff.mpr ?_
      rw [same]
      exact nodup
    · obtain ⟨address, reported, rfl⟩ := mem_report.mp member
      have hit := (known address).mp reported
      exact ((minDist_iff known among hit.1).mpr (estimated address hit)).1
    · obtain ⟨address, reported, rfl⟩ := mem_report.mp member
      have hit := (known address).mp reported
      exact arrives_late_iff.mpr ((minDist_iff known among hit.1).mpr (estimated address hit)).2

theorem returns_report (env : Environment) (failureType : FailureType) (known : failedProtocol ∈ graph.protocols.keys) :
    Returns env failureType graph failedProtocol (some (report env failureType graph failedProtocol
      (run env failureType graph.edges (graph.edges.length + 1) (started failedProtocol)).affected)) := by
  refine ⟨graph.edges.length + 2, fun more enough => ?_⟩
  rw [simulateCascade, if_pos known, (search_eq pending_started_le enough).1, Option.map_some]

/-- The report comes, and its distances are right where one, two or three is. -/
theorem cascade_iff (env : Environment) (failureType : FailureType) (graph : SystemDependencyGraph) (failedProtocol : String) :
    ∃ outcome, Returns env failureType graph failedProtocol outcome ∧
      ((∀ result ∈ outcome, IsCascade env failureType graph failedProtocol result) ↔
        (failedProtocol ∈ graph.protocols.keys → ∀ address, Affected env failureType graph failedProtocol address →
          Estimated env failureType graph failedProtocol address)) := by
  by_cases known : failedProtocol ∈ graph.protocols.keys
  · refine ⟨_, returns_report env failureType known, ?_⟩
    have flooding := flooding_end env failureType graph failedProtocol
    have empty := (@search_eq env failureType graph.edges _ _ _ (@pending_started_le _ failedProtocol) (Nat.lt_succ_self _)).2
    have met := isCascade_iff flooding.nodup_affected (fun other => flooding.mem_affected empty) fun edge member => (flooding.among edge member).1
    constructor
    · exact fun right _ => met.mp (right _ rfl)
    · rintro estimated _ ⟨⟩
      exact met.mpr (estimated known)
  · refine ⟨none, ⟨0, fun more _ => by rw [simulateCascade, if_neg known]⟩, ?_⟩
    exact ⟨fun _ present => absurd present known, fun _ _ absent => nomatch absent⟩

/-! ### A chain -/

/-- B depends on A and A on X; all draws succeed. -/
def chain : SystemDependencyGraph where
  protocols := ⟨[("X", "X"), ("A", "A"), ("B", "B")], by decide⟩
  edges := [⟨"A", "X", .critical⟩, ⟨"B", "A", .critical⟩]

def unlucky : Environment where
  draws _ := .finite 0
  tvlCache := .empty
  string _ := "NaN"

/-- The failure of X reaches B after two hops, but B is reported at a distance of three. -/
theorem dependent_misjudged : ∃ result entry, Returns unlucky .hack chain "X" (some result) ∧ entry ∈ result.affectedProtocols ∧
    (⟨entry.address, 2⟩ : Hop) ∈ arrivals unlucky .hack chain "X" ∧ entry.distance = 3 ∧
    ¬ IsCascade unlucky .hack chain "X" result := by
  have member : "B" ∈ (run unlucky .hack chain.edges (chain.edges.length + 1) (started "X")).affected := by decide +kernel
  have arrival : (⟨"B", 2⟩ : Hop) ∈ arrivals unlucky .hack chain "X" := by decide +kernel
  have distance : minDist chain.edges "X" (run unlucky .hack chain.edges (chain.edges.length + 1) (started "X")).affected "B" = 3 := by
    decide +kernel
  have entry := (@mem_report unlucky .hack "X" chain _ _).mpr ⟨"B", member, rfl⟩
  refine ⟨_, _, returns_report unlucky .hack (by decide), entry, arrival, distance, fun cascade => ?_⟩
  have early := cascade.early _ entry 2 arrival
  exact absurd (distance.ge.trans early) (by decide)

end Octraban.SystemicRisk
