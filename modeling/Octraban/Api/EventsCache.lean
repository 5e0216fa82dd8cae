import Octraban.Core.BigInt

/-! GET /api/events: the cache keys of api.js and prefetchEngine.js beside the database
query of the handler. -/
namespace Octraban.EventsCache
open JavaScript

/-- A query value as the qs parser makes it. -/
inductive Value where
  | string (text : String)
  | array (items : List Value)

mutual

/-- What a template string makes of a value. -/
def Value.text : Value → String
  | .string text => text
  | .array items => ",".intercalate (Value.texts items)

def Value.texts : List Value → List String
  | [] => []
  | value :: values => value.text :: Value.texts values

end

structure Request where
  contract : Option Value
  fn : Option Value
  page : Option Value
  type : Option Value

def textOr (default : String) (value : Option Value) : String := value.elim default Value.text

def qstr : Option Value → Option String
  | some (.string text) => some text
  | _ => none

/-- `Number(page) || 1` -/
def pageNumber (page : Option Value) : Number :=
  match page.elim .nan fun value => number value.text with
  | .nan => .finite 1
  | .finite x => if x = 0 then .finite 1 else .finite x
  | .infinite negative => .infinite negative

inductive Param where
  | text (value : String)
  | number (value : Number)
  deriving DecidableEq

/-- The statement's text is fixed by its conditions and the number of parameters. -/
structure Statement where
  conditions : List String
  params : List Param
  deriving DecidableEq

/-- db.js; the limit is the default. -/
def getEvents (contract fn : Option String) (page : Number) (type : Option String) : Statement :=
  let contract := contract.filter (· ≠ "")
  let fn := fn.filter (· ≠ "")
  let offset := (page.apply (· - 1)).apply (· * 25)
  { conditions :=
      (if contract.isSome then ["contract_id = $1"] else []) ++
      (if fn.isSome then [if contract.isSome then "function = $2" else "function = $1"] else []) ++
      (if type = some "soroban" then ["contract_id IS NOT NULL AND contract_id <> ''"] else []) ++
      (if type = some "classic" then ["(contract_id IS NULL OR contract_id = '')"] else [])
    params := contract.toList.map .text ++ fn.toList.map .text ++ [.number (.finite 25), .number offset] }

def listKey (contract fn page type : String) : String :=
  "events:list:" ++ (contract ++ ":" ++ fn ++ ":" ++ page ++ ":" ++ type)

namespace Request

/-- The key of the cache middleware. -/
def getKey (req : Request) : String :=
  listKey (textOr "" req.contract) (textOr "" req.fn) (textOr "1" req.page) (textOr "" req.type)

/-- The key the handler passes on to the prefetch engine, for any page. -/
def pageKey (req : Request) (page : Number) : String :=
  listKey (textOr "" req.contract) (textOr "" req.fn) page.text (textOr "" req.type)

def query (req : Request) (page : Number) : Statement :=
  getEvents (qstr req.contract) (qstr req.fn) page (qstr req.type)

def nextPage (req : Request) : Number := (pageNumber req.page).apply (· + 1)

end Request

/-- `_predict`, with its pattern ^events:list:([^:]*):([^:]*):(\\d+):([^:]*)$. -/
def predict (key : String) : List String :=
  if "events:list:".toList <+: key.toList then
    match (key.toList.drop "events:list:".length).splitOn ':' with
    | [contract, fn, page, type] =>
      if page ≠ [] ∧ page.all Char.isDigit then
        let nextPage := value page + 1
        (if nextPage ≤ 5 then
          [listKey (String.ofList contract) (String.ofList fn) (String.ofList (decimal nextPage))
            (String.ofList type)]
        else []) ++
        (if contract ≠ [] then ["contracts:single:" ++ String.ofList contract] else [])
      else []
    | _ => []
  else []

/-- The predicted keys that have a loader, with what it loads. -/
def schedulePrefetch (key : String) (loaders : List (String × Statement)) : List (String × Statement) :=
  (predict key).filterMap fun nextKey => (loaders.lookup nextKey).map fun statement => (nextKey, statement)

/-- What a request looks up and stores, each key with the query behind it. -/
def entries (req : Request) : List (String × Statement) :=
  (req.getKey, req.query (pageNumber req.page)) ::
    schedulePrefetch (req.pageKey (pageNumber req.page)) [(req.pageKey req.nextPage, req.query req.nextPage)]

/-- Whatever another request finds under a key of this one is what it would have computed. -/
def Transparent (first : Request) : Prop :=
  ∀ second, ∀ stored ∈ entries first, ∀ wanted ∈ entries second, wanted.1 = stored.1 → wanted.2 = stored.2

/-- The request filters on nothing, and its page and type do not look like several fields. -/
structure Unfiltered (req : Request) : Prop where
  contract : textOr "" req.contract = ""
  fn : textOr "" req.fn = ""
  page : ':' ∉ (textOr "1" req.page).toList
  type : ':' ∉ (textOr "" req.type).toList
  kind : textOr "" req.type ≠ "soroban" ∧ textOr "" req.type ≠ "classic"

def pageOfText (text : String) : Number := pageNumber (some (.string text))

theorem pageOfText_of_bigInt {text : String} {n : Nat} (read : bigInt text = some (n : Int)) (positive : n ≠ 0)
    (small : n < 2 ^ 53) : pageOfText text = .finite n := by
  have parsed : number text = .finite n := by
    rw [number_of_bigInt read, Int.cast_natCast]
    exact roundRat_natCast small
  rw [pageOfText, pageNumber, Option.elim_some, Value.text, parsed]
  exact if_neg (Nat.cast_ne_zero.mpr positive)

theorem pageNumber_eq (page : Option Value) : pageNumber page = pageOfText (textOr "1" page) := by
  cases page with
  | none => exact (@pageOfText_of_bigInt "1" 1 (by decide) (by decide) (by decide)).symm
  | some value => rfl

theorem fields_split (contract fn page type : String) :
    (contract ++ ":" ++ fn ++ ":" ++ page ++ ":" ++ type).toList.splitOn ':' =
      contract.toList.splitOn ':' ++ (fn.toList.splitOn ':' ++
        (page.toList.splitOn ':' ++ type.toList.splitOn ':')) := by
  have joined : (contract ++ ":" ++ fn ++ ":" ++ page ++ ":" ++ type).toList =
      contract.toList ++ ':' :: (fn.toList ++ ':' :: (page.toList ++ ':' :: type.toList)) := by
    simp
  rw [joined, List.splitOn_append_cons_self, List.splitOn_append_cons_self, List.splitOn_append_cons_self]

theorem unsplit {text : List Char} {separator : Char} (one : (text.splitOn separator).length = 1) :
    text.splitOn separator = [text] ∧ separator ∉ text := by
  constructor
  · obtain ⟨part, whole⟩ := List.length_eq_one_iff.mp one
    have joined : [separator].intercalate (text.splitOn separator) = text := List.intercalate_splitOn separator
    rw [whole] at joined
    rw [whole, ← joined]
    simp [List.intercalate]
  · intro inside
    obtain ⟨before, after, rfl⟩ := List.append_of_mem inside
    have left := List.length_pos_iff.mpr (List.splitOn_ne_nil separator before)
    have right := List.length_pos_iff.mpr (List.splitOn_ne_nil separator after)
    rw [List.splitOn_append_cons_self, List.length_append] at one
    omega

/-- Four parts can only be the four fields. -/
theorem parts_eq_fields {contract fn page type : String} {parts : List (List Char)}
    (four : parts.length = 4)
    (split : (contract ++ ":" ++ fn ++ ":" ++ page ++ ":" ++ type).toList.splitOn ':' = parts) :
    parts = [contract.toList, fn.toList, page.toList, type.toList] ∧ ∀ part ∈ parts, ':' ∉ part := by
  have nonempty (text : List Char) : 0 < (text.splitOn ':').length :=
    List.length_pos_iff.mpr (List.splitOn_ne_nil ':' text)
  have contracts := nonempty contract.toList
  have fns := nonempty fn.toList
  have pages := nonempty page.toList
  have types := nonempty type.toList
  rw [fields_split] at split
  rw [← split] at four ⊢
  simp only [List.length_append] at four
  obtain ⟨contract_whole, contract_plain⟩ := unsplit (show (contract.toList.splitOn ':').length = 1 by omega)
  obtain ⟨fn_whole, fn_plain⟩ := unsplit (show (fn.toList.splitOn ':').length = 1 by omega)
  obtain ⟨page_whole, page_plain⟩ := unsplit (show (page.toList.splitOn ':').length = 1 by omega)
  obtain ⟨type_whole, type_plain⟩ := unsplit (show (type.toList.splitOn ':').length = 1 by omega)
  rw [contract_whole, fn_whole, page_whole, type_whole]
  constructor
  · rfl
  · simp [contract_plain, fn_plain, page_plain, type_plain]

theorem listKey_inj {contract fn page type contract' fn' page' type' : String}
    (plain : ':' ∉ contract.toList ∧ ':' ∉ fn.toList ∧ ':' ∉ page.toList ∧ ':' ∉ type.toList)
    (same : listKey contract' fn' page' type' = listKey contract fn page type) :
    contract' = contract ∧ fn' = fn ∧ page' = page ∧ type' = type := by
  have fields : contract' ++ ":" ++ fn' ++ ":" ++ page' ++ ":" ++ type' =
      contract ++ ":" ++ fn ++ ":" ++ page ++ ":" ++ type := String.append_right_inj _ |>.mp same
  have split := fields_split contract fn page type
  rw [List.splitOn_eq_singleton plain.1, List.splitOn_eq_singleton plain.2.1,
    List.splitOn_eq_singleton plain.2.2.1, List.splitOn_eq_singleton plain.2.2.2, ← fields] at split
  have parts := (parts_eq_fields rfl split).1
  simp only [List.cons_append, List.nil_append, List.cons.injEq, String.toList_inj, and_true] at parts
  exact ⟨parts.1.symm, parts.2.1.symm, parts.2.2.1.symm, parts.2.2.2.symm⟩

/-- The key a pattern match predicts is the one for the next page. -/
theorem predict_listKey {contract fn page type nextKey : String}
    (predicted : nextKey ∈ predict (listKey contract fn page type)) :
    (':' ∉ contract.toList ∧ ':' ∉ fn.toList ∧ ':' ∉ type.toList ∧
      ∃ page < 5, nextKey = listKey contract fn (String.ofList (decimal (page + 1))) type) ∨
      nextKey = "contracts:single:" ++ contract := by
  have fields : (listKey contract fn page type).toList.drop "events:list:".length =
      (contract ++ ":" ++ fn ++ ":" ++ page ++ ":" ++ type).toList := by
    rw [listKey, String.toList_append]
    exact List.drop_left' rfl
  unfold predict at predicted
  rw [fields] at predicted
  split at predicted
  · split at predicted
    · rename_i first second third fourth split
      obtain ⟨parts, plain⟩ := parts_eq_fields rfl split
      cases parts
      split at predicted
      · rcases List.mem_append.mp predicted with list | single
        · split at list
          · rename_i bounded
            left
            refine ⟨plain _ (by simp), plain _ (by simp), plain _ (by simp), _, bounded, ?_⟩
            simpa using list
          · cases list
        · split at single
          · right
            simpa using single
          · cases single
      · cases predicted
    · cases predicted
  · cases predicted

theorem pageOfText_decimal {n : Nat} (small : n < 5) :
    pageOfText (String.ofList (decimal (n + 1))) = .finite (n + 1 : Nat) := by
  interval_cases n
  all_goals exact pageOfText_of_bigInt (by decide) (by decide) (by decide)

/-- Each entry holds the query of the page its key names. -/
theorem entries_spec {req : Request} {entry : String × Statement} (member : entry ∈ entries req) :
    ∃ page, entry.1 = listKey (textOr "" req.contract) (textOr "" req.fn) page (textOr "" req.type) ∧
      entry.2 = req.query (pageOfText page) ∧ (page = textOr "1" req.page ∨ ':' ∉ page.toList) := by
  rcases List.mem_cons.mp member with same | prefetched
  · rw [same]
    exact ⟨_, rfl, by rw [pageNumber_eq], .inl rfl⟩
  · obtain ⟨nextKey, predicted, loaded⟩ := List.mem_filterMap.mp prefetched
    have loader : nextKey = req.pageKey req.nextPage ∧ entry = (nextKey, req.query req.nextPage) := by
      simp only [List.lookup_cons, List.lookup_nil] at loaded
      split at loaded
      · rename_i found
        exact ⟨eq_of_beq found, (Option.some.inj loaded).symm⟩
      · cases loaded
    obtain ⟨named, rfl⟩ := loader
    rcases predict_listKey predicted with ⟨contract, fn, type, n, small, same⟩ | single
    · have plain : ':' ∉ (String.ofList (decimal (n + 1))).toList := by
        rw [String.toList_ofList]
        exact notMem_decimal rfl _
      have text := (listKey_inj ⟨contract, fn, plain, type⟩ (named.symm.trans same)).2.2.1
      have number := eq_of_text_eq_decimal text
      refine ⟨String.ofList (decimal (n + 1)), same, ?_, .inr plain⟩
      rw [number, pageOfText_decimal small]
    · have first := congrArg (fun key : String => key.toList.head?) (single.symm.trans named)
      simp [Request.pageKey, listKey] at first

theorem qstr_filter {value : Option Value} (empty : textOr "" value = "") :
    (qstr value).filter (· ≠ "") = none := by
  unfold qstr
  split
  · rename_i text
    have blank : text = "" := empty
    simp [blank]
  · rfl

theorem query_unfiltered (req : Request) (contract : textOr "" req.contract = "")
    (fn : textOr "" req.fn = "") (page : Number) :
    req.query page = getEvents none none page (qstr req.type) := by
  unfold Request.query getEvents
  rw [qstr_filter contract, qstr_filter fn]
  rfl

theorem qstr_eq_text {value : Option Value} {text : String} (same : qstr value = some text) :
    textOr "" value = text := by
  unfold qstr at same
  split at same
  · exact Option.some.inj same
  · contradiction

theorem getEvents_kind {type : Option String} (page : Number)
    (kind : type ≠ some "soroban" ∧ type ≠ some "classic") :
    getEvents none none page type = getEvents none none page none := by
  simp [getEvents, kind.1, kind.2]

theorem Unfiltered.transparent {first : Request} (plain : Unfiltered first) : Transparent first := by
  intro second stored member wanted found same
  obtain ⟨page, key, query, pages⟩ := entries_spec member
  obtain ⟨page', key', query', -⟩ := entries_spec found
  have colon : ':' ∉ page.toList := by
    rcases pages with own | free
    · rw [own]
      exact plain.page
    · exact free
  rw [key, key', plain.contract, plain.fn] at same
  obtain ⟨contract, fn, rfl, type⟩ := listKey_inj ⟨by simp, by simp, colon, plain.type⟩ same
  have kind (req : Request) (text : textOr "" req.type = textOr "" first.type) :
      qstr req.type ≠ some "soroban" ∧ qstr req.type ≠ some "classic" := by
    constructor
    · intro soroban
      exact plain.kind.1 (text.symm.trans (qstr_eq_text soroban))
    · intro classic
      exact plain.kind.2 (text.symm.trans (qstr_eq_text classic))
  rw [query, query', query_unfiltered second contract fn, query_unfiltered first plain.contract plain.fn,
    getEvents_kind _ (kind second type), getEvents_kind _ (kind first rfl)]

/-- The same text, as a string for an array and as an array for a string. -/
def recast : Option Value → Option Value
  | some (.string text) => some (.array [.string text])
  | value => some (.string (textOr "" value))

theorem textOr_recast (value : Option Value) : textOr "" (recast value) = textOr "" value := by
  unfold recast
  split
  · rfl
  · rfl

theorem qstr_recast (value : Option Value) :
    (qstr value = some (textOr "" value) ∧ qstr (recast value) = none) ∨
      (qstr value = none ∧ qstr (recast value) = some (textOr "" value)) := by
  cases value with
  | none => exact .inr ⟨rfl, rfl⟩
  | some value =>
    cases value with
    | string text => exact .inl ⟨rfl, rfl⟩
    | array items => exact .inr ⟨rfl, rfl⟩

theorem length_params (contract fn : Option String) (page : Number) (type : Option String) :
    (getEvents contract fn page type).params.length =
      (contract.filter (· ≠ "")).toList.length + (fn.filter (· ≠ "")).toList.length + 2 := by
  simp [getEvents]
  omega

theorem Transparent.same_query {first : Request} (transparent : Transparent first) (second : Request)
    (same : second.getKey = first.getKey) :
    second.query (pageNumber second.page) = first.query (pageNumber first.page) :=
  transparent second _ List.mem_cons_self _ List.mem_cons_self same

theorem recast_params {value : Option Value} (filtered : textOr "" value ≠ "") :
    ((qstr (recast value)).filter (· ≠ "")).toList.length ≠ ((qstr value).filter (· ≠ "")).toList.length := by
  have counts : (some (textOr "" value)).filter (· ≠ "") = some (textOr "" value) :=
    Option.filter_eq_some_iff.mpr ⟨rfl, decide_eq_true filtered⟩
  rcases qstr_recast value with ⟨kept, dropped⟩ | ⟨dropped, kept⟩
  · rw [kept, dropped, counts]
    simp
  · rw [kept, dropped, counts]
    simp

theorem Transparent.contract {first : Request} (transparent : Transparent first) :
    textOr "" first.contract = "" := by
  by_contra filtered
  have same : ({ first with contract := recast first.contract } : Request).getKey = first.getKey := by
    rw [Request.getKey, textOr_recast]
    rfl
  have params := congrArg (fun statement => statement.params.length) (transparent.same_query _ same)
  simp only [Request.query, length_params] at params
  exact recast_params filtered (by omega)

theorem Transparent.fn {first : Request} (transparent : Transparent first) : textOr "" first.fn = "" := by
  by_contra filtered
  have same : ({ first with fn := recast first.fn } : Request).getKey = first.getKey := by
    rw [Request.getKey, textOr_recast]
    rfl
  have params := congrArg (fun statement => statement.params.length) (transparent.same_query _ same)
  simp only [Request.query, length_params] at params
  exact recast_params filtered (by omega)

theorem Transparent.kind {first : Request} (transparent : Transparent first) :
    textOr "" first.type ≠ "soroban" ∧ textOr "" first.type ≠ "classic" := by
  have same : ({ first with type := recast first.type } : Request).getKey = first.getKey := by
    rw [Request.getKey, textOr_recast]
    rfl
  have query := transparent.same_query _ same
  rw [query_unfiltered first transparent.contract transparent.fn,
    query_unfiltered { first with type := recast first.type } transparent.contract transparent.fn] at query
  have conditions := congrArg (fun statement => statement.conditions.length) query
  rcases qstr_recast first.type with ⟨kept, dropped⟩ | ⟨dropped, kept⟩
  · simp only [kept, dropped] at conditions
    constructor
    · intro soroban
      simp [soroban, getEvents] at conditions
    · intro classic
      simp [classic, getEvents] at conditions
  · simp only [kept, dropped] at conditions
    constructor
    · intro soroban
      simp [soroban, getEvents] at conditions
    · intro classic
      simp [classic, getEvents] at conditions

end Octraban.EventsCache
