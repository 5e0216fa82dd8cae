import Octraban.Core.JavaScript
import Octraban.Core.Letters
import Octraban.Core.Like

/-! db.js: the searches for contracts and events. The words of the query go into the parameters of the statement as
patterns, and the statement refers to them by their numbers. -/
namespace Octraban.Search
open JavaScript Like

/-- The wildcards of LIKE, with its default escape. -/
def wildcards : Wildcards Char := ⟨'%', '_', '\\', by decide, by decide, by decide⟩

def normalizeSearchTerms (q : String) : List (List Char) :=
  ((q.toList.splitOnP isWhitespace).filter (· ≠ [])).take 8

def clampLimit (limit : Number) (fallback max : ℚ) : Number :=
  if !limit.isFinite || limit.lt (.finite 1) then .finite fallback else limit.min (.finite max)

def escapeLike (value : List Char) : List Char :=
  value.flatMap fun c => if c = '%' ∨ c = '_' ∨ c = '\\' then ['\\', c] else [c]

inductive Param where
  | text (value : List Char)
  | number (value : Number)
  deriving DecidableEq

/-- The number that the statement refers to a parameter by. -/
def pushParam (params : List Param) (value : Param) : List Param × ℕ :=
  let params := params ++ [value]
  (params, params.length)

/-- A column and the number of the pattern it is compared with. -/
abbrev Comparison := String × ℕ

def likeColumns (pattern : List Char) : List String → List Param → List Comparison × List Param
  | [], params => ([], params)
  | column :: rest, params =>
    let (params, place) := pushParam params (.text pattern)
    let (comparisons, params) := likeColumns pattern rest params
    ((column, place) :: comparisons, params)

def likeTerms (columns : List String) : List (List Char) → List Param → List (List Comparison) × List Param
  | [], params => ([], params)
  | term :: rest, params =>
    let (comparisons, params) := likeColumns ('%' :: (escapeLike term ++ ['%'])) columns params
    let (others, params) := likeTerms columns rest params
    (comparisons :: others, params)

/-- The numbers of the parameters in the statement, and the parameters. -/
structure Query where
  fts : ℕ
  likeTerms : List (List Comparison)
  limit : ℕ
  params : List Param

/-- No query is made where there is no word. -/
def search (columns : List String) (q : String) (limit : Number) : Option Query :=
  let terms := normalizeSearchTerms q
  if terms.length = 0 then none
  else
    let (params, ftsQuery) := pushParam [] (.text (JavaScript.trim q).toList)
    let (comparisons, params) := likeTerms columns terms params
    let params := params ++ [.number (clampLimit limit 10 50)]
    some ⟨ftsQuery, comparisons, params.length, params⟩

def contractColumns : List String := ["c.name", "c.description", "c.id", "c.functions::text"]

def eventColumns : List String :=
  ["e.function", "e.description", "e.contract_id", "e.tx_hash", "e.raw_topics::text", "e.raw_data"]

def searchContracts : String → Number → Option Query := search contractColumns

def searchEvents : String → Number → Option Query := search eventColumns

/-! ### What the database does -/

/-- The text of each column of a row; none for NULL. -/
abbrev Row := String → Option (List Char)

structure Database where
  /-- The lower case that ILIKE compares in. -/
  fold : Char → Char
  /-- Full text search. -/
  fts : Row → List Char → Bool

/-- Lower case is for letters. -/
structure Database.Folds (db : Database) : Prop where
  special : ∀ c, Special wildcards (db.fold c) ↔ Special wildcards c
  same : ∀ c, Special wildcards c → db.fold c = c

def Database.ilike (db : Database) (value pattern : List Char) : Bool :=
  like wildcards (pattern.map db.fold) (value.map db.fold)

/-- What a parameter's number refers to. -/
def param (params : List Param) (place : ℕ) : Option (List Char) :=
  match params[place - 1]? with
  | some (.text value) => some value
  | _ => none

def Database.holds (db : Database) (params : List Param) (row : Row) (comparison : Comparison) : Prop :=
  ∃ value pattern, row comparison.1 = some value ∧ param params comparison.2 = some pattern ∧ db.ilike value pattern = true

/-- The condition of the statement. -/
def Database.selects (db : Database) (query : Query) (row : Row) : Prop :=
  (∃ text, param query.params query.fts = some text ∧ db.fts row text = true) ∨
    ∃ comparisons ∈ query.likeTerms, ∃ comparison ∈ comparisons, db.holds query.params row comparison

/-- A column contains a word, whatever the case of its letters. -/
def Database.contains (db : Database) (row : Row) (term : List Char) (column : String) : Prop :=
  ∃ value, row column = some value ∧ term.map db.fold <:+: value.map db.fold

/-- The statement takes the rows that the text search finds, and those in which one of the first eight words of `q`
stands in one of the columns, letter for letter up to case. -/
structure Database.Finds (db : Database) (columns : List String) (q : String) (limit : Number) (query : Query) : Prop where
  selects : ∀ row, db.selects query row ↔ db.fts row (JavaScript.trim q).toList = true ∨
    ∃ term ∈ normalizeSearchTerms q, ∃ column ∈ columns, db.contains row term column
  limited : query.params[query.limit - 1]? = some (.number (clampLimit limit 10 50))

variable {db : Database} {row : Row} {params final : List Param} {pattern term : List Char} {columns : List String}

/-! ### Patterns -/

theorem escapeLike_eq (value : List Char) : escapeLike value = escaped wildcards value := by
  refine List.flatMap_congr fun c _ => ?_
  exact if_congr Iff.rfl rfl rfl

theorem map_escapeLike (folds : db.Folds) (term : List Char) :
    (escapeLike term).map db.fold = escaped wildcards (term.map db.fold) := by
  rw [escapeLike_eq, escaped, escaped, List.map_flatMap, List.flatMap_map]
  refine List.flatMap_congr fun c _ => ?_
  rw [apply_ite (List.map db.fold)]
  refine if_ctx_congr (folds.special c).symm (fun special => ?_) fun _ => rfl
  have special := (folds.special c).mp special
  have escape : db.fold wildcards.escape = wildcards.escape := folds.same _ (.inr (.inr rfl))
  simp only [List.map_cons, List.map_nil, escape]

theorem ilike_iff (folds : db.Folds) (value term : List Char) :
    db.ilike value ('%' :: (escapeLike term ++ ['%'])) = true ↔ term.map db.fold <:+: value.map db.fold := by
  have any : db.fold '%' = wildcards.any := folds.same _ (.inl rfl)
  rw [Database.ilike, List.map_cons, List.map_append, map_escapeLike folds, List.map_singleton, any]
  exact like_contains

/-! ### Parameters -/

theorem param_last (params : List Param) {value : List Char} (pushed : params ++ [.text value] <+: final) :
    param final (params.length + 1) = some value := by
  obtain ⟨later, rfl⟩ := pushed
  rw [param, Nat.add_sub_cancel, List.append_assoc, List.getElem?_append_right le_rfl, Nat.sub_self]
  rfl

theorem likeColumns_cons (pattern : List Char) (column : String) (rest : List String) (params : List Param) :
    likeColumns pattern (column :: rest) params =
      ((column, params.length + 1) :: (likeColumns pattern rest (params ++ [.text pattern])).1,
        (likeColumns pattern rest (params ++ [.text pattern])).2) := by
  simp [likeColumns, pushParam]

theorem likeTerms_cons (columns : List String) (term : List Char) (rest : List (List Char)) (params : List Param) :
    likeTerms columns (term :: rest) params =
      let pushed := likeColumns ('%' :: (escapeLike term ++ ['%'])) columns params
      (pushed.1 :: (likeTerms columns rest pushed.2).1, (likeTerms columns rest pushed.2).2) := rfl

theorem prefix_likeColumns (pattern : List Char) (columns : List String) (params : List Param) :
    params <+: (likeColumns pattern columns params).2 := by
  induction columns generalizing params with
  | nil => exact List.prefix_refl _
  | cons column rest ih =>
    rw [likeColumns_cons]
    exact (List.prefix_append _ _).trans (ih _)

theorem prefix_likeTerms (columns : List String) (terms : List (List Char)) (params : List Param) :
    params <+: (likeTerms columns terms params).2 := by
  induction terms generalizing params with
  | nil => exact List.prefix_refl _
  | cons term rest ih =>
    rw [likeTerms_cons]
    exact (prefix_likeColumns _ _ _).trans (ih _)

/-- Every column is compared with the pattern, whatever is pushed later. -/
theorem likeColumns_spec (pushed : (likeColumns pattern columns params).2 <+: final) :
    (∃ comparison ∈ (likeColumns pattern columns params).1, db.holds final row comparison) ↔
      ∃ column ∈ columns, ∃ value, row column = some value ∧ db.ilike value pattern = true := by
  induction columns generalizing params with
  | nil => simp [likeColumns]
  | cons column rest ih =>
    rw [likeColumns_cons] at pushed ⊢
    have place := param_last params ((prefix_likeColumns _ _ _).trans pushed)
    rw [List.exists_mem_cons_iff, List.exists_mem_cons_iff, ih pushed]
    refine or_congr_left ?_
    simp only [Database.holds, place, Option.some.injEq, exists_and_left, exists_eq_left']

/-- Some word is in some column. -/
theorem likeTerms_spec (folds : db.Folds) {terms : List (List Char)} (pushed : (likeTerms columns terms params).2 <+: final) :
    (∃ comparisons ∈ (likeTerms columns terms params).1, ∃ comparison ∈ comparisons, db.holds final row comparison) ↔
      ∃ term ∈ terms, ∃ column ∈ columns, db.contains row term column := by
  induction terms generalizing params with
  | nil => simp [likeTerms]
  | cons term rest ih =>
    rw [likeTerms_cons] at pushed ⊢
    dsimp only at pushed ⊢
    rw [List.exists_mem_cons_iff, List.exists_mem_cons_iff, ih pushed,
      likeColumns_spec ((prefix_likeTerms _ _ _).trans pushed)]
    simp only [ilike_iff folds, Database.contains]

theorem finds_of_search (folds : db.Folds) {q : String} {limit : Number} {query : Query}
    (made : search columns q limit = some query) : db.Finds columns q limit query := by
  have first : [Param.text (JavaScript.trim q).toList] <+:
      (likeTerms columns (normalizeSearchTerms q) [.text (JavaScript.trim q).toList]).2 := prefix_likeTerms _ _ _
  have text := param_last [] (first.trans (List.prefix_append _ [.number (clampLimit limit 10 50)]))
  simp only [search, pushParam, List.nil_append] at made
  split at made
  · cases made
  · obtain rfl := Option.some.inj made
    constructor
    · intro row
      refine or_congr ?_ (likeTerms_spec folds (List.prefix_append _ _))
      dsimp only
      rw [List.length_nil, Nat.zero_add] at text
      rw [List.length_singleton, text]
      simp only [Option.some.injEq, exists_eq_left']
    · dsimp only
      rw [List.length_append, List.length_singleton, Nat.add_sub_cancel, List.getElem?_append_right le_rfl, Nat.sub_self]
      rfl

/-- No character of a word acts as a wildcard, and every comparison has the pattern that was pushed for it. -/
theorem search_selects_iff (db : Database) (folds : db.Folds) (q : String) (limit : Number) :
    (∀ query ∈ searchContracts q limit, db.Finds contractColumns q limit query) ∧
    ∀ query ∈ searchEvents q limit, db.Finds eventColumns q limit query :=
  ⟨fun _ made => finds_of_search folds made, fun _ made => finds_of_search folds made⟩

/-- Lower case of the basic alphabet, and no text search. -/
def basic : Database := ⟨Char.toLower, fun _ _ => false⟩

theorem folds_basic : basic.Folds where
  special c := by
    refine Letters.forall_of_capitals (p := fun c lower => Special wildcards lower ↔ Special wildcards c) (by decide) ?_ c
    exact fun c _ => Iff.rfl
  same c special := by
    rcases special with rfl | rfl | rfl <;> rfl

/-- The underscore of the query stands for itself. -/
def underscored : Query where
  fts := 1
  likeTerms := [[("c.name", 2), ("c.description", 3), ("c.id", 4), ("c.functions::text", 5)]]
  limit := 6
  params := .text ['a', '_', 'b'] :: List.replicate 4 (.text ['%', 'a', '\\', '_', 'b', '%']) ++ [.number (.finite 10)]

theorem search_selects_underscored : basic.Finds contractColumns "a_b" (.finite 10) underscored :=
  (search_selects_iff basic folds_basic "a_b" (.finite 10)).1 underscored (by rfl)

end Octraban.Search
