import Octraban.Api.ApiKeys

/-! graphqlComplexity.js: a query is weighed before it runs. Every definition of the document is
weighed once, whatever the number of its spreads. -/
namespace Octraban.GraphqlComplexity
open ApiKeys

/-- A selection set, read from its first selection on; a field without one has the empty set. -/
inductive SelectionSet where
  | empty
  | field (name : String) (selectionSet rest : SelectionSet)
  | inlineFragment (selectionSet rest : SelectionSet)
  | fragmentSpread (name : String) (rest : SelectionSet)

inductive Definition where
  | operation (selectionSet : SelectionSet)
  | fragment (name : String) (selectionSet : SelectionSet)
  | other

abbrev Document := List Definition

def TIER_COMPLEXITY_BUDGETS : Tier → Nat
  | .unauthenticated => 100
  | .free => 500
  | .pro => 2000
  | .enterprise => 10000

def DEFAULT_FIELD_COST : Nat := 1

def LIST_FIELD_MULTIPLIER : Nat := 10

def LIST_FIELD_NAMES : List String :=
  ["edges", "nodes", "items", "results", "data", "records", "entries", "list", "feed", "page", "collection"]

/-- Names in a query are ASCII. -/
def isListField (fieldName : String) : Bool :=
  String.ofList (fieldName.toList.map Char.toLower) ∈ LIST_FIELD_NAMES ||
    (fieldName.length > 1 && fieldName.toList.getLast? = some 's')

def calculateSelectionSetCost : SelectionSet → Nat
  | .empty => 0
  | .field name selectionSet rest =>
    let fieldCost := if isListField name then DEFAULT_FIELD_COST * LIST_FIELD_MULTIPLIER else DEFAULT_FIELD_COST
    fieldCost + calculateSelectionSetCost selectionSet + calculateSelectionSetCost rest
  | .inlineFragment selectionSet rest => calculateSelectionSetCost selectionSet + calculateSelectionSetCost rest
  | .fragmentSpread _ rest => DEFAULT_FIELD_COST + calculateSelectionSetCost rest

def calculateDocumentCost : Document → Nat
  | [] => 0
  | .operation selectionSet :: rest | .fragment _ selectionSet :: rest =>
    calculateSelectionSetCost selectionSet + calculateDocumentCost rest
  | .other :: rest => calculateDocumentCost rest

/-- A request has a query if the body has a text there. -/
structure Request where
  path : String
  query : Option String
  rateContext : Option Tier

/-- A request that goes on may get the headers for the cost and for what remains. -/
inductive Outcome where
  | next (headers : Option (Nat × Nat))
  | rejected (cost limit : Nat)
  deriving DecidableEq

def Request.includesGraphql (req : Request) : Prop := "/graphql".toList <:+: req.path.toList

instance (req : Request) : Decidable req.includesGraphql := inferInstanceAs (Decidable (_ <:+: _))

def Request.budget (req : Request) : Nat := TIER_COMPLEXITY_BUDGETS (req.rateContext.getD .unauthenticated)

/-- `parse` is the one of the package graphql, `none` where it throws. -/
def graphqlComplexityLimiter (parse : String → Option Document) (req : Request) : Outcome :=
  if ¬ req.includesGraphql then .next none
  else
    match req.query with
    | none | some "" => .next none
    | some query =>
      match parse query with
      | none => .next none
      | some document =>
        let cost := calculateDocumentCost document
        if cost > req.budget then .rejected cost req.budget else .next (some (cost, req.budget - cost))

/-! ### The fields that are executed -/

namespace SelectionSet

def fields : SelectionSet → Nat
  | .empty => 0
  | .field _ selectionSet rest => 1 + selectionSet.fields + rest.fields
  | .inlineFragment selectionSet rest => selectionSet.fields + rest.fields
  | .fragmentSpread _ rest => rest.fields

def listFields : SelectionSet → Nat
  | .empty => 0
  | .field name selectionSet rest => (if isListField name then 1 else 0) + selectionSet.listFields + rest.listFields
  | .inlineFragment selectionSet rest => selectionSet.listFields + rest.listFields
  | .fragmentSpread _ rest => rest.listFields

/-- The fragments that are spread, at any depth of the fields. -/
def spreads : SelectionSet → List String
  | .empty => []
  | .field _ selectionSet rest | .inlineFragment selectionSet rest => selectionSet.spreads ++ rest.spreads
  | .fragmentSpread name rest => name :: rest.spreads

/-- Every spread replaced by an inline fragment. -/
def substitute (body : String → SelectionSet) : SelectionSet → SelectionSet
  | .empty => .empty
  | .field name selectionSet rest => .field name (selectionSet.substitute body) (rest.substitute body)
  | .inlineFragment selectionSet rest => .inlineFragment (selectionSet.substitute body) (rest.substitute body)
  | .fragmentSpread name rest => .inlineFragment (body name) (rest.substitute body)

end SelectionSet

namespace Document

def operations (document : Document) : List SelectionSet :=
  document.filterMap fun definition => match definition with
    | .operation selectionSet => some selectionSet
    | _ => none

def fragments (document : Document) : List (String × SelectionSet) :=
  document.filterMap fun definition => match definition with
    | .fragment name selectionSet => some (name, selectionSet)
    | _ => none

/-- The last definition of a name counts, and a name without one stands for nothing. -/
def body (document : Document) (name : String) : SelectionSet :=
  ((document.fragments.reverse.find? fun fragment => fragment.1 = name).map Prod.snd).getD .empty

/-- The spreads expanded to some depth, and those below it dropped. -/
def expand (document : Document) : (depth : Nat) → SelectionSet → SelectionSet
  | 0, selectionSet => selectionSet.substitute fun _ => .empty
  | depth + 1, selectionSet => selectionSet.substitute fun name => document.expand depth (document.body name)

/-- As deep as spreads can go without a cycle. -/
def expansion (document : Document) : SelectionSet → SelectionSet := document.expand document.fragments.length

/-- The number of fields that the operations execute. -/
def executedFields (document : Document) : Nat :=
  (document.operations.map fun selectionSet => (document.expansion selectionSet).fields).sum

/-- The fragments put in by an expansion, each as often as it is. -/
def expandedFragments (document : Document) : (depth : Nat) → SelectionSet → List String
  | 0, _ => []
  | depth + 1, selectionSet =>
    selectionSet.spreads.flatMap fun name => name :: document.expandedFragments depth (document.body name)

/-- A fragment spreads another, at any depth of its fields. -/
def Spreads (document : Document) (name other : String) : Prop := other ∈ (document.body name).spreads

def Acyclic (document : Document) : Prop := ∀ name, ¬ Relation.TransGen document.Spreads name name

end Document

/-- The cost covers the fields that are executed, and no request whose document executes more fields
than its budget goes on. -/
def Unevaded (parse : String → Option Document) (document : Document) : Prop :=
  document.executedFields ≤ calculateDocumentCost document ∧
    ∀ req query, req.includesGraphql → req.query = some query → query ≠ "" → parse query = some document →
      req.budget < document.executedFields →
        ∃ cost limit, graphqlComplexityLimiter parse req = .rejected cost limit

/-- The fields of all expanded fragments are no more than what the cost counts over the fields of
the operations: those of each fragment once, nine for a list field and one for a spread. -/
def Document.Repaid (document : Document) : Prop :=
  ((document.operations.flatMap (document.expandedFragments document.fragments.length)).map fun name =>
      (document.body name).fields).sum ≤
    (document.fragments.map fun fragment => fragment.2.fields).sum +
      ((document.operations ++ document.fragments.map Prod.snd).map fun selectionSet =>
        9 * selectionSet.listFields + selectionSet.spreads.length).sum

variable {document : Document} {depth : Nat}

theorem cost_eq (selectionSet : SelectionSet) : calculateSelectionSetCost selectionSet =
    selectionSet.fields + (9 * selectionSet.listFields + selectionSet.spreads.length) := by
  induction selectionSet with
  | empty => rfl
  | field name selectionSet rest own ih =>
    simp only [calculateSelectionSetCost, own, ih, SelectionSet.fields, SelectionSet.listFields, SelectionSet.spreads,
      List.length_append, DEFAULT_FIELD_COST, LIST_FIELD_MULTIPLIER]
    split <;> omega
  | inlineFragment selectionSet rest own ih =>
    simp only [calculateSelectionSetCost, own, ih, SelectionSet.fields, SelectionSet.listFields, SelectionSet.spreads,
      List.length_append]
    omega
  | fragmentSpread name rest ih =>
    simp only [calculateSelectionSetCost, ih, SelectionSet.fields, SelectionSet.listFields, SelectionSet.spreads,
      List.length_cons, DEFAULT_FIELD_COST]
    omega

theorem sum_map_cost (selectionSets : List SelectionSet) : (selectionSets.map calculateSelectionSetCost).sum =
    (selectionSets.map SelectionSet.fields).sum +
      (selectionSets.map fun selectionSet => 9 * selectionSet.listFields + selectionSet.spreads.length).sum := by
  rw [← List.sum_map_add]
  exact congrArg List.sum (List.map_congr_left fun selectionSet _ => cost_eq selectionSet)

/-- The cost takes each definition once. -/
theorem calculateDocumentCost_eq (document : Document) : calculateDocumentCost document =
    ((document.operations ++ document.fragments.map Prod.snd).map calculateSelectionSetCost).sum := by
  induction document with
  | nil => rfl
  | cons definition rest ih =>
    rw [List.map_append, List.sum_append] at ih ⊢
    cases definition with
    | operation selectionSet =>
      rw [calculateDocumentCost, ih, ← Nat.add_assoc]
      rfl
    | fragment name selectionSet =>
      rw [calculateDocumentCost, ih, Nat.add_left_comm]
      rfl
    | other => exact ih

theorem fields_substitute (body : String → SelectionSet) (selectionSet : SelectionSet) :
    (selectionSet.substitute body).fields =
      selectionSet.fields + (selectionSet.spreads.map fun name => (body name).fields).sum := by
  induction selectionSet with
  | empty => rfl
  | field name selectionSet rest own ih =>
    simp only [SelectionSet.substitute, SelectionSet.fields, own, ih, SelectionSet.spreads, List.map_append, List.sum_append]
    omega
  | inlineFragment selectionSet rest own ih =>
    simp only [SelectionSet.substitute, SelectionSet.fields, own, ih, SelectionSet.spreads, List.map_append, List.sum_append]
    omega
  | fragmentSpread name rest ih =>
    simp only [SelectionSet.substitute, SelectionSet.fields, ih, SelectionSet.spreads, List.map_cons, List.sum_cons]
    omega

theorem substitute_congr {body other : String → SelectionSet} {selectionSet : SelectionSet}
    (same : ∀ name ∈ selectionSet.spreads, body name = other name) :
    selectionSet.substitute body = selectionSet.substitute other := by
  induction selectionSet with
  | empty => rfl
  | field name selectionSet rest own ih | inlineFragment selectionSet rest own ih =>
    obtain ⟨inner, later⟩ := List.forall_mem_append.mp same
    simp only [SelectionSet.substitute, own inner, ih later]
  | fragmentSpread name rest ih =>
    obtain ⟨spread, later⟩ := List.forall_mem_cons.mp same
    simp only [SelectionSet.substitute, spread, ih later]

theorem sum_flatMap {α : Type} (weights : α → List Nat) (xs : List α) :
    (xs.flatMap weights).sum = (xs.map fun x => (weights x).sum).sum := by
  rw [List.flatMap_def, List.sum_flatten, List.map_map]
  rfl

/-- Each expanded fragment brings its own fields. -/
theorem fields_expand (document : Document) (depth : Nat) (selectionSet : SelectionSet) :
    (document.expand depth selectionSet).fields = selectionSet.fields +
      ((document.expandedFragments depth selectionSet).map fun name => (document.body name).fields).sum := by
  induction depth generalizing selectionSet with
  | zero =>
    rw [Document.expand, fields_substitute, Document.expandedFragments]
    simp [SelectionSet.fields]
  | succ depth ih =>
    rw [Document.expand, fields_substitute, Document.expandedFragments, List.map_flatMap, sum_flatMap]
    simp only [ih, List.map_cons, List.sum_cons]

theorem executedFields_eq (document : Document) : document.executedFields =
    (document.operations.map SelectionSet.fields).sum +
      ((document.operations.flatMap (document.expandedFragments document.fragments.length)).map fun name =>
        (document.body name).fields).sum := by
  rw [List.map_flatMap, sum_flatMap, ← List.sum_map_add]
  simp only [Document.executedFields, Document.expansion, fields_expand]

/-! ### The expansion is whole -/

theorem expand_empty : document.expand depth .empty = .empty := by cases depth <;> rfl

theorem body_of_unknown {name : String} (unknown : name ∉ document.fragments.map Prod.fst) :
    document.body name = .empty := by
  have none : (document.fragments.reverse.find? fun fragment => fragment.1 = name) = none :=
    List.find?_eq_none.mpr fun fragment member named =>
      unknown (List.mem_map.mpr ⟨fragment, List.mem_reverse.mp member, of_decide_eq_true named⟩)
  rw [Document.body, none]
  rfl

theorem body_of_known {name : String} (known : name ∈ document.fragments.map Prod.fst) :
    (name, document.body name) ∈ document.fragments := by
  obtain ⟨fragment, member, named⟩ := List.mem_map.mp known
  have some : (document.fragments.reverse.find? fun fragment => fragment.1 = name).isSome :=
    List.find?_isSome.mpr ⟨fragment, List.mem_reverse.mpr member, decide_eq_true named⟩
  obtain ⟨last, found⟩ := Option.isSome_iff_exists.mp some
  have same : last.1 = name := by simpa using List.find?_some found
  rw [Document.body, found, ← same]
  exact List.mem_reverse.mp (List.mem_of_find?_eq_some found)

open Classical in
/-- The number of fragments that are spread below another. -/
noncomputable def rank (document : Document) (name : String) : Nat :=
  ((document.fragments.map Prod.fst).toFinset.filter fun other => Relation.TransGen document.Spreads name other).card

theorem rank_lt_rank (acyclic : document.Acyclic) {name other : String} (spreads : document.Spreads name other)
    (known : other ∈ document.fragments.map Prod.fst) : rank document other < rank document name := by
  classical
  refine Finset.card_lt_card (Finset.ssubset_iff_of_subset ?_ |>.mpr ⟨other, ?_, ?_⟩)
  · exact Finset.monotone_filter_right _ fun below _ reach => Relation.TransGen.head spreads reach
  · exact Finset.mem_filter.mpr ⟨List.mem_toFinset.mpr known, .single spreads⟩
  · exact fun member => acyclic other (Finset.mem_filter.mp member).2

theorem rank_lt (acyclic : document.Acyclic) {name : String} (known : name ∈ document.fragments.map Prod.fst) :
    rank document name < document.fragments.length := by
  classical
  have fewer : rank document name < (document.fragments.map Prod.fst).toFinset.card :=
    Finset.card_lt_card (Finset.filter_ssubset.mpr ⟨name, List.mem_toFinset.mpr known, acyclic name⟩)
  exact fewer.trans_le ((List.toFinset_card_le _).trans_eq (List.length_map _))

/-- At a depth above the ranks of its spreads a selection set is expanded to the ground. -/
theorem expand_succ (acyclic : document.Acyclic) {selectionSet : SelectionSet}
    (deep : ∀ name ∈ selectionSet.spreads, name ∈ document.fragments.map Prod.fst → rank document name < depth) :
    document.expand (depth + 1) selectionSet = document.expand depth selectionSet := by
  induction depth generalizing selectionSet with
  | zero =>
    refine substitute_congr fun name spread => ?_
    have unknown : name ∉ document.fragments.map Prod.fst := fun known => absurd (deep name spread known) (Nat.not_lt_zero _)
    rw [body_of_unknown unknown, expand_empty]
  | succ depth ih =>
    refine substitute_congr fun name spread => ?_
    by_cases known : name ∈ document.fragments.map Prod.fst
    · refine ih fun other below defined => ?_
      exact (rank_lt_rank acyclic below defined).trans_le (Nat.le_of_lt_succ (deep name spread known))
    · rw [body_of_unknown known, expand_empty, expand_empty]

theorem expansion_eq (acyclic : document.Acyclic) (selectionSet : SelectionSet) :
    document.expansion selectionSet = selectionSet.substitute fun name => document.expansion (document.body name) :=
  (expand_succ acyclic fun _ _ known => rank_lt acyclic known).symm

theorem limiter_eq {parse : String → Option Document} {req : Request} {query : String} (path : req.includesGraphql)
    (given : req.query = some query) (present : query ≠ "") (parsed : parse query = some document) :
    graphqlComplexityLimiter parse req =
      if calculateDocumentCost document > req.budget then .rejected (calculateDocumentCost document) req.budget
      else .next (some (calculateDocumentCost document, req.budget - calculateDocumentCost document)) := by
  rw [graphqlComplexityLimiter, if_neg (not_not_intro path), given]
  split
  · rename_i none
    cases none
  · rename_i empty
    exact absurd (Option.some.inj empty) present
  · rename_i same
    rw [← Option.some.inj same, parsed]

/-- Without cycles the expansion is whole, and the budget cannot be evaded exactly if the fields of
all expanded fragments are repaid: a fragment is weighed where it is defined, and each of its
spreads adds one. -/
theorem complexity_unevaded_iff (parse : String → Option Document) (document : Document) (acyclic : document.Acyclic) :
    (∀ selectionSet, document.expansion selectionSet =
      selectionSet.substitute fun name => document.expansion (document.body name)) ∧
    (Unevaded parse document ↔ document.Repaid) := by
  refine ⟨expansion_eq acyclic, ?_⟩
  have covers : document.executedFields ≤ calculateDocumentCost document ↔ document.Repaid := by
    rw [executedFields_eq, calculateDocumentCost_eq, sum_map_cost, List.map_append, List.sum_append, Nat.add_assoc,
      Nat.add_le_add_iff_left, List.map_map]
    rfl
  rw [← covers]
  refine ⟨And.left, fun covered => ⟨covered, fun req query path given present parsed exceeds => ?_⟩⟩
  rw [limiter_eq path given present parsed, if_pos (exceeds.trans_le covered)]
  exact ⟨_, _, rfl⟩

theorem sum_known (names : List String) : (names.map fun name => (document.body name).fields).sum =
    ((names.filter fun name => name ∈ document.fragments.map Prod.fst).map fun name =>
      (document.body name).fields).sum := by
  induction names with
  | nil => rfl
  | cons name names ih =>
    by_cases known : name ∈ document.fragments.map Prod.fst
    · rw [List.filter_cons_of_pos (by simpa using known), List.map_cons, List.map_cons, List.sum_cons, List.sum_cons, ih]
    · rw [List.filter_cons_of_neg (by simpa using known), List.map_cons, List.sum_cons, ih, body_of_unknown known]
      exact Nat.zero_add _

/-- Fragments that are expanded once each are repaid by their own weights. -/
theorem repaid_of_nodup
    (once : (document.operations.flatMap (document.expandedFragments document.fragments.length)).Nodup) :
    document.Repaid := by
  have fields_le (names : List String) (nodup : names.Nodup) : (names.map fun name => (document.body name).fields).sum ≤
      (document.fragments.map fun fragment => fragment.2.fields).sum := by
    let known := names.filter fun name => name ∈ document.fragments.map Prod.fst
    have rest : (names.map fun name => (document.body name).fields).sum =
        ((known.map fun name => (name, document.body name)).map fun fragment => fragment.2.fields).sum := by
      rw [List.map_map]
      exact sum_known names
    have defined : (known.map fun name => (name, document.body name)) ⊆ document.fragments := by
      intro fragment member
      obtain ⟨name, listed, rfl⟩ := List.mem_map.mp member
      exact body_of_known (of_decide_eq_true (List.mem_filter.mp listed).2)
    have distinct : (known.map fun name => (name, document.body name)).Nodup :=
      (nodup.filter _).map fun _ _ same => congrArg Prod.fst same
    obtain ⟨some, perm, sublist⟩ := List.subperm_of_subset distinct defined
    rw [rest, ← (perm.map _).sum_eq]
    exact (sublist.map _).sum_le_sum fun _ _ => Nat.zero_le _
  exact (fields_le _ once).trans (Nat.le_add_right _ _)

/-- A document with one fragment, in which nothing is spread, has no cycles. -/
theorem acyclic_of_leaf {operation leaf : SelectionSet} {fragment : String} (flat : leaf.spreads = []) :
    Document.Acyclic [.operation operation, .fragment fragment leaf] := by
  have none (name other : String) : ¬ Document.Spreads [.operation operation, .fragment fragment leaf] name other := by
    intro spreads
    by_cases same : fragment = name
    · simp [Document.Spreads, Document.body, Document.fragments, same, flat] at spreads
    · simp [Document.Spreads, Document.body, Document.fragments, same, SelectionSet.spreads] at spreads
  intro name cycle
  cases cycle with
  | single spreads => exact none _ _ spreads
  | tail _ spreads => exact none _ _ spreads

/-- A parser that knows one text. -/
def parser (text : String) (document : Document) (query : String) : Option Document :=
  if query = text then some document else none

def spreadOnce : Document := [.operation (.fragmentSpread "A" .empty), .fragment "A" (.field "a" .empty .empty)]

theorem complexity_unevaded_spreadOnce :
    Unevaded (parser "\x7b ...A \x7d fragment A on Query \x7b a \x7d" spreadOnce) spreadOnce :=
  (complexity_unevaded_iff _ spreadOnce (acyclic_of_leaf rfl)).2.mpr (by unfold Document.Repaid; decide)

def wide : Nat → SelectionSet
  | 0 => .empty
  | width + 1 => .field "a" .empty (wide width)

/-- A fragment of forty fields, spread three times. -/
def spreadThrice : Document :=
  [.operation (.fragmentSpread "A" (.fragmentSpread "A" (.fragmentSpread "A" .empty))), .fragment "A" (wide 40)]

def spreadThriceText : String :=
  "\x7b ...A ...A ...A \x7d fragment A on Query \x7b " ++ String.join (List.replicate 40 "a ") ++ "\x7d"

/-- Without a key, a hundred is the budget; the cost of forty-three lets a hundred and twenty fields pass. -/
theorem complexity_unevaded_spreadThrice :
    spreadThrice.Acyclic ∧ spreadThrice.executedFields = 120 ∧
      graphqlComplexityLimiter (parser spreadThriceText spreadThrice) ⟨"/graphql", some spreadThriceText, none⟩ =
        .next (some (43, 57)) ∧
      ¬ Unevaded (parser spreadThriceText spreadThrice) spreadThrice := by
  have executed : spreadThrice.executedFields = 120 := by decide
  have cost : calculateDocumentCost spreadThrice = 43 := by decide
  have flat (width : Nat) : (wide width).spreads = [] := by
    induction width with
    | zero => rfl
    | succ width ih => simp [wide, SelectionSet.spreads, ih]
  refine ⟨acyclic_of_leaf (flat 40), executed, ?_, fun unevaded => ?_⟩
  · have present : spreadThriceText ≠ "" := by decide
    have path : Request.includesGraphql ⟨"/graphql", some spreadThriceText, none⟩ := List.infix_rfl
    rw [limiter_eq path rfl present (if_pos rfl), cost]
    rfl
  · have covers := unevaded.1
    rw [executed, cost] at covers
    omega

end Octraban.GraphqlComplexity
