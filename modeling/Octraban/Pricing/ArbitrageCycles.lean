import Mathlib.Analysis.Complex.Exponential
import Octraban.Core.FirstWrite
import Octraban.Core.JavaScript
import Octraban.Core.OrderedMap

/-! detectNegativeCycles of arbitrage-engine.ts: cycles of trades, rebuilt from the predecessors of a
search for shortest walks. Weights are exact numbers that stand for logarithms of prices. -/
namespace Octraban.ArbitrageCycles
open JavaScript (utf16)

/-- The source writes the key `source:target:poolId`; ids hold no colon. -/
structure EdgeKey where
  source : String
  target : String
  poolId : String
  deriving DecidableEq

structure PriceNode where
  poolId : String
  dexName : String

structure PriceGraph (W : Type) where
  nodes : OrderedMap String (List PriceNode)
  edges : OrderedMap EdgeKey W

structure Hop where
  token : String
  poolId : String
  dex : String
  deriving DecidableEq

/-- No distance stands for an infinite one and for a missing one. -/
structure Search (W : Type) where
  dist : String → Option W
  prev : String → Option Hop

structure ArbitrageCycle (M : Type) where
  path : List String
  poolIds : List String
  dexNames : List String
  profitMultiplier : M

/-- A closing edge, and what the walk back from its source meets. -/
structure Rebuilt where
  start : String
  closing : EdgeKey
  trail : List (String × Option Hop)
  closingDex : String
  deriving DecidableEq

def Rebuilt.path (r : Rebuilt) : List String := r.start :: (r.trail.map Prod.fst).reverse

/-- Unlike the path, these are not reversed. -/
def Rebuilt.poolIds (r : Rebuilt) : List String :=
  (r.trail.filterMap fun met => met.2.map Hop.poolId) ++ [r.closing.poolId]

def Rebuilt.dexNames (r : Rebuilt) : List String :=
  (r.trail.filterMap fun met => met.2.map Hop.dex) ++ [r.closingDex]

/-- `[...path].sort().join('-')` -/
def Rebuilt.cycleKey (r : Rebuilt) : String :=
  "-".intercalate (r.path.mergeSort fun a b => ¬ utf16 b < utf16 a)

/-- The keys under which the weights of a cycle are looked up. -/
def legs (path poolIds : List String) : List EdgeKey :=
  List.zipWith (fun ends poolId => ⟨ends.1, ends.2, poolId⟩) (path.zip (path.tail ++ path.take 1)) poolIds

section
variable {W M : Type} [AddCommGroup W] [LinearOrder W] [LinearOrder M] (graph : PriceGraph W) (maxHops : ℕ)

def dexOf (token poolId : String) : String :=
  ((((graph.nodes.get token).getD []).find? fun n => n.poolId = poolId).map PriceNode.dexName).getD ""

def relax (search : Search W) (edge : EdgeKey × W) : Search W :=
  match search.dist edge.1.source with
  | none => search
  | some d =>
    if (search.dist edge.1.target).all fun known => d + edge.2 < known then
      { dist := Function.update search.dist edge.1.target (some (d + edge.2))
        prev := Function.update search.prev edge.1.target
          (some ⟨edge.1.source, edge.1.poolId, dexOf graph edge.1.source edge.1.poolId⟩) }
    else search

def initial (startToken : String) : Search W where
  dist token := if token = startToken then some 0 else none
  prev _ := none

/-- One pass less than there are tokens. -/
def searchFrom (startToken : String) : Search W :=
  (fun search => graph.edges.entries.foldl (relax graph) search)^[graph.nodes.keys.length - 1] (initial startToken)

/-- One more relaxation would lower the distance of the start. -/
def closes (search : Search W) (startToken : String) (edge : EdgeKey × W) : Bool :=
  edge.1.target = startToken ∧
    (search.dist edge.1.source).any fun d => (search.dist edge.1.target).all fun known => d + edge.2 < known

def walkBack (prev : String → Option Hop) (startToken : String) : ℕ → String → List (String × Option Hop)
  | 0, _ => []
  | hops + 1, cur =>
    if cur = startToken then []
    else match prev cur with
      | none => [(cur, none)]
      | some p => (cur, some p) :: walkBack prev startToken hops p.token

def rebuild (startToken : String) (closing : EdgeKey) : Rebuilt where
  start := startToken
  closing := closing
  trail := walkBack (searchFrom graph startToken).prev startToken maxHops closing.source
  closingDex := dexOf graph closing.source closing.poolId

/-- Of the cycles through the same tokens, the first is kept. -/
def rebuilt : List Rebuilt :=
  Sql.firsts Rebuilt.cycleKey [] (graph.nodes.keys.flatMap fun startToken =>
    (graph.edges.entries.filter (closes (searchFrom graph startToken) startToken)).map fun edge =>
      rebuild graph maxHops startToken edge.1)

def totalLogCost (keys : List EdgeKey) : W := (keys.map fun key => (graph.edges.get key).getD 0).sum

variable (exp : W → M) (least : M)

def Rebuilt.cycle (r : Rebuilt) : ArbitrageCycle M where
  path := r.path
  poolIds := r.poolIds
  dexNames := r.dexNames
  profitMultiplier := exp (-totalLogCost graph (legs r.path r.poolIds))

/-- `exp` is Math.exp and `least` is 1.0001. -/
def detectNegativeCycles : List (ArbitrageCycle M) :=
  (((rebuilt graph maxHops).map (Rebuilt.cycle graph exp)).filter fun c => least < c.profitMultiplier).mergeSort
    fun a b => b.profitMultiplier ≤ a.profitMultiplier

/-! ### Real cycles -/

/-- A closed walk of the graph, and the profit of exactly its edges. -/
structure Genuine (c : ArbitrageCycle M) : Prop where
  aligned : c.poolIds.length = c.path.length
  walk : ∃ weights : List W, (legs c.path c.poolIds).map graph.edges.get = weights.map some ∧
    c.profitMultiplier = exp (-weights.sum)

/-- What is rebuilt and reported. -/
def Reported (r : Rebuilt) : Prop :=
  r ∈ rebuilt graph maxHops ∧ least < (r.cycle graph exp).profitMultiplier

/-- The pools that the walk back meets, in the order in which it meets them, lead forward from the start
through the tokens it met, too. Where it meets none, the closing pool leads from the start to itself. -/
def Mirrored (r : Rebuilt) : Prop :=
  (∀ key ∈ List.zipWith (fun ends poolId => EdgeKey.mk ends.1 ends.2 poolId)
      (r.path.zip (r.trail.map Prod.fst).reverse) (r.trail.filterMap fun met => met.2.map Hop.poolId),
    key ∈ graph.edges.keys) ∧
  (r.trail = [] → ⟨r.start, r.start, r.closing.poolId⟩ ∈ graph.edges.keys)

/-- A pool trades two tokens, as `buildPriceGraph` makes them. -/
def OnePair : Prop := ∀ a ∈ graph.edges.keys, ∀ b ∈ graph.edges.keys, a.poolId = b.poolId →
  (a.source = b.source ∧ a.target = b.target) ∨ (a.source = b.target ∧ a.target = b.source)

/-- The closing edge leaves the start, or a token that the search came to from the start. -/
def Direct (r : Rebuilt) : Prop :=
  r.closing.source = r.start ∨
    maxHops ≠ 0 ∧ ((searchFrom graph r.start).prev r.closing.source).map Hop.token = some r.start

end

variable {W M : Type} [AddCommGroup W] [LinearOrder W] [LinearOrder M] {graph : PriceGraph W} {maxHops hops : ℕ}
  {exp : W → M} {least : M} {startToken cur : String} {search : Search W} {r : Rebuilt}

/-! ### The search -/

/-- A token with a distance is the start or was come to along an edge from another such token. -/
structure Sound (graph : PriceGraph W) (startToken : String) (search : Search W) : Prop where
  traced : ∀ token, (search.dist token).isSome → token = startToken ∨ (search.prev token).isSome
  edges : ∀ token hop, search.prev token = some hop →
    (search.dist hop.token).isSome ∧ ⟨hop.token, token, hop.poolId⟩ ∈ graph.edges.keys

omit [LinearOrder W] in
theorem sound_initial (graph : PriceGraph W) (startToken : String) : Sound graph startToken (initial startToken) where
  traced token known := by
    rw [initial] at known
    dsimp only at known
    split at known
    · rename_i same
      exact .inl same
    · cases known
  edges _ _ found := by cases found

theorem Sound.relax (sound : Sound graph startToken search) {edge : EdgeKey × W} (member : edge ∈ graph.edges.entries) :
    Sound graph startToken (relax graph search edge) := by
  unfold ArbitrageCycles.relax
  split
  · exact sound
  · rename_i d reached
    split
    · -- the distances only become known, never unknown
      have grows (token : String) (known : (search.dist token).isSome) :
          (Function.update search.dist edge.1.target (some (d + edge.2)) token).isSome := by
        by_cases same : token = edge.1.target
        · rw [same, Function.update_self]
          rfl
        · rw [Function.update_of_ne same]
          exact known
      constructor
      · intro token known
        dsimp only at known ⊢
        by_cases same : token = edge.1.target
        · refine .inr ?_
          rw [same, Function.update_self]
          rfl
        · rw [Function.update_of_ne same] at known ⊢
          exact sound.traced token known
      · intro token hop found
        dsimp only at found ⊢
        by_cases same : token = edge.1.target
        · rw [same, Function.update_self] at found
          cases found
          refine ⟨grows _ (by rw [reached]; rfl), ?_⟩
          rw [same]
          exact List.mem_map_of_mem member
        · rw [Function.update_of_ne same] at found
          obtain ⟨known, inside⟩ := sound.edges token hop found
          exact ⟨grows _ known, inside⟩
    · exact sound

theorem sound_searchFrom (graph : PriceGraph W) (startToken : String) :
    Sound graph startToken (searchFrom graph startToken) := by
  have pass (search : Search W) (sound : Sound graph startToken search) :
      Sound graph startToken (graph.edges.entries.foldl (ArbitrageCycles.relax graph) search) :=
    List.foldlRecOn _ _ sound fun _ sound _ member => sound.relax member
  exact Function.Iterate.rec (Sound graph startToken) (sound_initial graph startToken) pass _

/-! ### The walk back -/

/-- Each token of a walk back was come to over the edge that its hop names, from the next token of the
walk or from the start. -/
inductive Traced (graph : PriceGraph W) (startToken : String) : String → List (String × Option Hop) → Prop where
  | stops (cur : String) : Traced graph startToken cur []
  | back {cur : String} {hop : Hop} {rest : List (String × Option Hop)} (other : cur ≠ startToken)
      (edge : ⟨hop.token, cur, hop.poolId⟩ ∈ graph.edges.keys) (earlier : Traced graph startToken hop.token rest) :
      Traced graph startToken cur ((cur, some hop) :: rest)

omit [AddCommGroup W] [LinearOrder W] in
theorem traced_walkBack (sound : Sound graph startToken search) (hops : ℕ) {cur : String}
    (known : (search.dist cur).isSome) : Traced graph startToken cur (walkBack search.prev startToken hops cur) := by
  induction hops generalizing cur with
  | zero => exact .stops cur
  | succ hops ih =>
    rw [walkBack]
    split
    · exact .stops cur
    · rename_i other
      obtain ⟨hop, found⟩ := Option.isSome_iff_exists.mp ((sound.traced cur known).resolve_left other)
      rw [found]
      obtain ⟨before, edge⟩ := sound.edges cur hop found
      exact .back other edge (ih before)

omit [AddCommGroup W] [LinearOrder W] in
theorem Traced.length {trail : List (String × Option Hop)} (traced : Traced graph startToken cur trail) :
    (trail.filterMap fun met => met.2.map Hop.poolId).length = trail.length := by
  induction traced with
  | stops => rfl
  | back _ _ _ ih =>
    rw [List.filterMap_cons]
    exact congrArg (· + 1) ih

/-- What is known of every cycle that is rebuilt. -/
structure Closed (graph : PriceGraph W) (maxHops : ℕ) (r : Rebuilt) : Prop where
  edge : r.closing ∈ graph.edges.keys
  back : r.closing.target = r.start
  trail : r.trail = walkBack (searchFrom graph r.start).prev r.start maxHops r.closing.source
  traced : Traced graph r.start r.closing.source r.trail

theorem closed_of_mem (member : r ∈ rebuilt graph maxHops) : Closed graph maxHops r := by
  obtain ⟨startToken, -, found⟩ := List.mem_flatMap.mp (Sql.mem_of_mem_firsts member)
  obtain ⟨edge, kept, rfl⟩ := List.mem_map.mp found
  obtain ⟨inside, closing⟩ := List.mem_filter.mp kept
  obtain ⟨target, lowers⟩ := of_decide_eq_true closing
  obtain ⟨d, reached, -⟩ := (Option.any_eq_true _ _).mp lowers
  have known : ((searchFrom graph startToken).dist edge.1.source).isSome := by rw [reached]; rfl
  exact ⟨List.mem_map_of_mem inside, target, rfl, traced_walkBack (sound_searchFrom graph startToken) maxHops known⟩

/-! ### Alignment -/

theorem zip_close {A : Type} (first last : A) (rest : List A) : (first :: rest).zip (rest ++ [last]) =
    (first :: rest).zip rest ++ [((first :: rest).getLast (List.cons_ne_nil _ _), last)] := by
  induction rest generalizing first with
  | nil => rfl
  | cons second rest ih =>
    rw [List.cons_append, List.zip_cons_cons, ih, List.zip_cons_cons, List.cons_append,
      List.getLast_cons (List.cons_ne_nil second rest)]

/-- The edges looked up: along the path, and the last one back to the start by the closing pool. -/
theorem legs_rebuilt (closed : Closed graph maxHops r) : legs r.path r.poolIds =
    List.zipWith (fun ends poolId => EdgeKey.mk ends.1 ends.2 poolId)
      (r.path.zip (r.trail.map Prod.fst).reverse) (r.trail.filterMap fun met => met.2.map Hop.poolId) ++
    [⟨r.path.getLast (List.cons_ne_nil _ _), r.start, r.closing.poolId⟩] := by
  have lengths : (r.path.zip (r.trail.map Prod.fst).reverse).length =
      (r.trail.filterMap fun met => met.2.map Hop.poolId).length := by
    rw [closed.traced.length, List.length_zip, Rebuilt.path, List.length_cons, List.length_reverse, List.length_map]
    exact min_eq_right (Nat.le_succ _)
  have paired : r.path.zip (r.path.tail ++ r.path.take 1) = r.path.zip (r.trail.map Prod.fst).reverse ++
      [(r.path.getLast (List.cons_ne_nil _ _), r.start)] := zip_close _ _ _
  rw [legs, paired, Rebuilt.poolIds, List.zipWith_append lengths]
  rfl

theorem getLast_path (closed : Closed graph maxHops r) : r.path.getLast (List.cons_ne_nil _ _) =
    if r.trail = [] then r.start else r.closing.source := by
  have traced := closed.traced
  unfold Rebuilt.path
  cases traced' : r.trail with
  | nil => simp
  | cons met rest =>
    rw [traced'] at traced
    cases traced
    simp

omit [LinearOrder M] in
theorem genuine_iff (closed : Closed graph maxHops r) : Genuine graph exp (r.cycle graph exp) ↔ Mirrored graph r := by
  have aligned : r.poolIds.length = r.path.length := by
    rw [Rebuilt.poolIds, List.length_append, closed.traced.length, Rebuilt.path]
    simp
  have walks : Genuine graph exp (r.cycle graph exp) ↔ ∀ key ∈ legs r.path r.poolIds, key ∈ graph.edges.keys := by
    constructor
    · rintro ⟨-, weights, found, -⟩ key member
      have looked : graph.edges.get key ∈ weights.map some := found ▸ List.mem_map_of_mem member
      obtain ⟨w, -, stored⟩ := List.mem_map.mp looked
      exact OrderedMap.isSome_get.mp (stored ▸ rfl)
    · intro walk
      refine ⟨aligned, (legs r.path r.poolIds).map fun key => (graph.edges.get key).getD 0, ?_, rfl⟩
      rw [List.map_map]
      refine List.map_congr_left fun key member => ?_
      obtain ⟨w, stored⟩ := Option.isSome_iff_exists.mp (OrderedMap.isSome_get.mpr (walk key member))
      rw [Function.comp_apply, stored]
      rfl
  rw [walks, legs_rebuilt closed, List.forall_mem_append, Mirrored]
  refine and_congr_right fun _ => ?_
  rw [List.forall_mem_singleton, getLast_path closed]
  by_cases empty : r.trail = []
  · rw [if_pos empty]
    exact ⟨fun inside _ => inside, fun inside => inside empty⟩
  · rw [if_neg empty]
    refine iff_of_true ?_ fun none => absurd none empty
    rw [← closed.back]
    exact closed.edge

omit [AddCommGroup W] [LinearOrder W] in
/-- Where a pool trades two tokens only, a walk back that meets two tokens before the start is not mirrored:
the pool that it meets first does not trade the start. -/
theorem mirrored_onePair {trail : List (String × Option Hop)} (onePair : OnePair graph)
    (traced : Traced graph startToken cur trail) (nonempty : trail ≠ []) :
    (∀ key ∈ List.zipWith (fun ends poolId => EdgeKey.mk ends.1 ends.2 poolId)
        ((startToken :: (trail.map Prod.fst).reverse).zip (trail.map Prod.fst).reverse)
        (trail.filterMap fun met => met.2.map Hop.poolId), key ∈ graph.edges.keys) ↔
      ∃ hop, trail = [(cur, some hop)] ∧ hop.token = startToken := by
  cases traced with
  | stops => exact absurd rfl nonempty
  | @back _ hop rest other edge earlier =>
    -- the first key asks for an edge from the start by the pool that was met first
    have first {token : String} (inside : ⟨startToken, token, hop.poolId⟩ ∈ graph.edges.keys) :
        startToken = hop.token ∧ token = cur := by
      rcases onePair _ inside _ edge rfl with same | swapped
      · exact same
      · exact absurd swapped.1.symm other
    cases rest with
    | nil =>
      constructor
      · intro keys
        exact ⟨hop, rfl, (first (keys ⟨startToken, cur, hop.poolId⟩ List.mem_cons_self)).1.symm⟩
      · rintro ⟨hop', same, back⟩ key member
        cases same
        rw [List.mem_singleton.mp member, ← back]
        exact edge
    | cons met rest =>
      cases earlier with
      | back later _ _ =>
        refine iff_of_false (fun keys => ?_) fun ⟨_, same, _⟩ => nomatch same
        obtain ⟨token, more, tokens⟩ := List.exists_cons_of_ne_nil (l := (((cur, some hop) :: _).map Prod.fst).reverse)
          (by simp)
        rw [tokens] at keys
        exact later (first (keys ⟨startToken, token, hop.poolId⟩ List.mem_cons_self)).1.symm

theorem walkBack_eq_nil {prev : String → Option Hop} :
    walkBack prev startToken hops cur = [] ↔ hops = 0 ∨ cur = startToken := by
  cases hops with
  | zero => exact iff_of_true rfl (.inl rfl)
  | succ hops =>
    rw [walkBack]
    split
    · rename_i arrived
      exact iff_of_true rfl (.inr arrived)
    · rename_i other
      refine iff_of_false (fun none => ?_) fun stopped => stopped.elim (Nat.succ_ne_zero hops) other
      split at none <;> cases none

theorem walkBack_eq_singleton {prev : String → Option Hop} (walks : hops ≠ 0) (other : cur ≠ startToken) :
    (∃ hop, walkBack prev startToken hops cur = [(cur, some hop)] ∧ hop.token = startToken) ↔
      (prev cur).map Hop.token = some startToken := by
  obtain ⟨hops, rfl⟩ := Nat.exists_eq_succ_of_ne_zero walks
  rw [walkBack, if_neg other]
  cases prev cur with
  | none => exact iff_of_false (fun ⟨_, same, _⟩ => nomatch same) fun same => nomatch same
  | some p =>
    constructor
    · rintro ⟨hop, same, back⟩
      obtain ⟨head, -⟩ := List.cons.inj same
      cases head
      exact congrArg some back
    · intro back
      have back : p.token = startToken := Option.some.inj back
      refine ⟨p, ?_, back⟩
      exact congrArg _ (walkBack_eq_nil.mpr (.inr back))

theorem loops_iff (onePair : OnePair graph) (closed : Closed graph maxHops r) :
    ⟨r.start, r.start, r.closing.poolId⟩ ∈ graph.edges.keys ↔ r.closing.source = r.start := by
  constructor
  · intro inside
    rcases onePair _ inside _ closed.edge rfl with same | swapped
    · exact same.1.symm
    · exact swapped.2.symm
  · intro same
    have closing := closed.edge
    rwa [show r.closing = ⟨r.closing.source, r.closing.target, r.closing.poolId⟩ from rfl, closed.back, same] at closing

omit [LinearOrder M] in
theorem direct_iff (onePair : OnePair graph) (closed : Closed graph maxHops r) :
    Genuine graph exp (r.cycle graph exp) ↔ Direct graph maxHops r := by
  rw [genuine_iff closed, Mirrored, Direct]
  have met : r.trail = [] ↔ maxHops = 0 ∨ r.closing.source = r.start := by
    rw [closed.trail]
    exact walkBack_eq_nil
  by_cases empty : r.trail = []
  · rw [loops_iff onePair closed, empty]
    have stopped := met.mp empty
    constructor
    · rintro ⟨-, loops⟩
      exact .inl (loops rfl)
    · intro direct
      refine ⟨fun _ member => (nomatch member), fun _ => ?_⟩
      rcases direct with arrived | ⟨walks, -⟩
      · exact arrived
      · exact stopped.resolve_left walks
  · obtain ⟨walks, other⟩ := not_or.mp (mt met.mpr empty)
    have single := mirrored_onePair onePair closed.traced empty
    rw [closed.trail, walkBack_eq_singleton walks other, ← closed.trail] at single
    constructor
    · rintro ⟨keys, -⟩
      exact .inr ⟨walks, single.mp keys⟩
    · intro direct
      exact ⟨single.mpr (direct.resolve_left other).2, fun none => absurd none empty⟩

/-- A direct arbitrage: every edge leads from one of two tokens to the other. -/
def TwoTokens (graph : PriceGraph W) : Prop := ∃ a b : String, a ≠ b ∧ ∀ key ∈ graph.edges.keys,
  (key.source = a ∧ key.target = b) ∨ (key.source = b ∧ key.target = a)

omit [AddCommGroup W] [LinearOrder W] in
theorem TwoTokens.onePair (two : TwoTokens graph) : OnePair graph := by
  obtain ⟨a, b, -, between⟩ := two
  intro key inside key' inside' _
  rcases between key inside with ⟨rfl, rfl⟩ | ⟨rfl, rfl⟩
  · rcases between key' inside' with ⟨s, t⟩ | ⟨s, t⟩
    · exact .inl ⟨s.symm, t.symm⟩
    · exact .inr ⟨t.symm, s.symm⟩
  · rcases between key' inside' with ⟨s, t⟩ | ⟨s, t⟩
    · exact .inr ⟨t.symm, s.symm⟩
    · exact .inl ⟨s.symm, t.symm⟩

omit [AddCommGroup W] [LinearOrder W] in
/-- Two edges of two tokens in a row lead back to where they left from. -/
theorem TwoTokens.returns (two : TwoTokens graph) {a b c poolId poolId' : String}
    (edge : ⟨a, b, poolId⟩ ∈ graph.edges.keys) (next : ⟨b, c, poolId'⟩ ∈ graph.edges.keys) : a = c := by
  obtain ⟨x, y, different, between⟩ := two
  rcases between _ edge with ⟨source, target⟩ | ⟨source, target⟩ <;>
    rcases between _ next with ⟨source', target'⟩ | ⟨source', target'⟩
  · exact absurd (source'.symm.trans target) different
  · exact source.trans target'.symm
  · exact source.trans target'.symm
  · exact absurd (target.symm.trans source') different

theorem TwoTokens.direct (two : TwoTokens graph) (walks : maxHops ≠ 0) (closed : Closed graph maxHops r) :
    Direct graph maxHops r := by
  by_cases arrived : r.closing.source = r.start
  · exact .inl arrived
  · refine .inr ⟨walks, ?_⟩
    have traced := closed.traced
    obtain ⟨hops, rfl⟩ := Nat.exists_eq_succ_of_ne_zero walks
    rw [closed.trail, walkBack, if_neg arrived] at traced
    cases before : (searchFrom graph r.start).prev r.closing.source with
    | none =>
      rw [before] at traced
      cases traced
    | some p =>
      rw [before] at traced
      cases traced with
      | back _ edge _ =>
        have closing := closed.edge
        rw [show r.closing = ⟨r.closing.source, r.closing.target, r.closing.poolId⟩ from rfl, closed.back] at closing
        exact congrArg some (two.returns edge closing)

/-! ### What is reported -/

theorem mem_detectNegativeCycles {c : ArbitrageCycle M} : c ∈ detectNegativeCycles graph maxHops exp least ↔
    ∃ r, Reported graph maxHops exp least r ∧ r.cycle graph exp = c := by
  rw [detectNegativeCycles, List.mem_mergeSort, List.mem_filter, List.mem_map]
  constructor
  · rintro ⟨⟨r, member, rfl⟩, enough⟩
    exact ⟨r, ⟨member, of_decide_eq_true enough⟩, rfl⟩
  · rintro ⟨r, ⟨member, enough⟩, rfl⟩
    exact ⟨⟨r, member, rfl⟩, decide_eq_true enough⟩

theorem forall_reported {P : Rebuilt → Prop}
    (exact : ∀ r, Closed graph maxHops r → (Genuine graph exp (r.cycle graph exp) ↔ P r)) :
    (∀ c ∈ detectNegativeCycles graph maxHops exp least, Genuine graph exp c) ↔
      ∀ r, Reported graph maxHops exp least r → P r := by
  constructor
  · intro real r reported
    exact (exact r (closed_of_mem reported.1)).mp (real _ (mem_detectNegativeCycles.mpr ⟨r, reported, rfl⟩))
  · intro fine c member
    obtain ⟨r, reported, rfl⟩ := mem_detectNegativeCycles.mp member
    exact (exact r (closed_of_mem reported.1)).mpr (fine r reported)

/-- The cycles reported are real exactly where their pools lead forward as read backward. Where a pool trades
one pair, these are the cycles whose closing edge leaves the start or a token next to it: of two tokens, all. -/
theorem cycles_real_iff (graph : PriceGraph W) (maxHops : ℕ) (exp : W → M) (least : M) :
    ((∀ c ∈ detectNegativeCycles graph maxHops exp least, Genuine graph exp c) ↔
      ∀ r, Reported graph maxHops exp least r → Mirrored graph r) ∧
    (OnePair graph → ((∀ c ∈ detectNegativeCycles graph maxHops exp least, Genuine graph exp c) ↔
      ∀ r, Reported graph maxHops exp least r → Direct graph maxHops r)) ∧
    (TwoTokens graph → maxHops ≠ 0 → ∀ c ∈ detectNegativeCycles graph maxHops exp least, Genuine graph exp c) := by
  refine ⟨forall_reported fun _ closed => genuine_iff closed,
    fun onePair => forall_reported fun _ closed => direct_iff onePair closed, fun two walks => ?_⟩
  refine (forall_reported fun _ closed => direct_iff two.onePair closed).mpr fun r reported => ?_
  exact two.direct walks (closed_of_mem reported.1)

/-! ### A triangle -/

/-- Three pools without a fee, each of which trades its first token for `e` times its second. -/
def triangle : PriceGraph ℤ where
  nodes := ⟨[("A", [⟨"P", "x"⟩, ⟨"R", "x"⟩]), ("B", [⟨"P", "x"⟩, ⟨"Q", "x"⟩]), ("C", [⟨"Q", "x"⟩, ⟨"R", "x"⟩])], by decide⟩
  edges := ⟨[(⟨"A", "B", "P"⟩, -1), (⟨"B", "A", "P"⟩, 1), (⟨"B", "C", "Q"⟩, -1), (⟨"C", "B", "Q"⟩, 1),
    (⟨"C", "A", "R"⟩, -1), (⟨"A", "C", "R"⟩, 1)], by decide⟩

/-- From B over C and A: C is looked for beyond the pool of A and C, and A beyond that of B and C. -/
def roundTrip : Rebuilt where
  start := "B"
  closing := ⟨"A", "B", "P"⟩
  trail := [("A", some ⟨"C", "R", "x"⟩), ("C", some ⟨"B", "Q", "x"⟩)]
  closingDex := "x"

theorem roundTrip_rebuilt : roundTrip ∈ rebuilt triangle 5 := by decide +kernel

/-- Going round multiplies by what each of three trades earns, but two of the three weights are not found. -/
theorem triangle_mixed : ¬ ∀ c ∈ detectNegativeCycles triangle 5 (fun w => Real.exp w) (1.0001 : ℝ),
    Genuine triangle (fun w => Real.exp w) c := by
  intro real
  have earns : (1.0001 : ℝ) < Real.exp ((1 : ℤ) : ℝ) := by
    have grows := Real.add_one_lt_exp (x := ((1 : ℤ) : ℝ)) (by norm_num)
    norm_num at grows ⊢
    linarith
  have reported : Reported triangle 5 (fun w => Real.exp w) (1.0001 : ℝ) roundTrip := ⟨roundTrip_rebuilt, earns⟩
  have genuine := real _ (mem_detectNegativeCycles.mpr ⟨roundTrip, reported, rfl⟩)
  have mirrored := (genuine_iff (closed_of_mem roundTrip_rebuilt)).mp genuine
  exact absurd (mirrored.1 ⟨"B", "C", "R"⟩ List.mem_cons_self) (by decide)

end Octraban.ArbitrageCycles
