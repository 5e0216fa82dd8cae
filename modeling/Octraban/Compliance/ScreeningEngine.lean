import Octraban.Core.JavaScript

/-! screening-engine.ts: every active entry is compared with the address in five ways, and
the status follows from the highest score. -/
namespace Octraban.Compliance
open JavaScript

inductive SanctionsSource where
  | ofac_sdn | ofac_cap | eu | un | uk_ofsi | custom
  deriving DecidableEq

structure FetchedEntry where
  source : SanctionsSource
  sourceUrl : Option String
  listVersion : String
  listName : Option String
  entityType : String
  address : Option String
  addressPattern : Option String
  name : Option String
  aliases : List String
  program : Option String
  country : Option String
  idDocument : Option String
  citizenship : List String
  birthDate : Option String
  placeOfBirth : Option String
  title : Option String
  addedToListAt : Int
  deriving DecidableEq

/-- A row of `sanctionsList`. -/
structure SanctionsList extends FetchedEntry where
  id : Nat
  isActive : Bool
  deriving DecidableEq

inductive MatchType where
  | exact | fuzzyAddress | fuzzyName | regex
  deriving DecidableEq

def MatchType.text : MatchType → String
  | exact => "exact"
  | fuzzyAddress => "fuzzy_address"
  | fuzzyName => "fuzzy_name"
  | regex => "partial"

structure MatchResult where
  sanctionsListId : Nat
  source : SanctionsSource
  listName : Option String
  matchType : MatchType
  matchScore : Number
  matchedField : String
  matchedValue : String
  entryName : Option String
  program : Option String
  country : Option String
  deriving DecidableEq

structure ScreeningOptions where
  method : Option String
  txHash : Option String

inductive Status where
  | blocked | high_risk | medium_risk | low_risk | clear
  deriving DecidableEq

/-- What the language brings along: `test pattern text` is `new RegExp(pattern, 'i').test(text)`,
none where the pattern is malformed. -/
structure Platform where
  toLowerCase : String → String
  test : String → String → Option Bool

/-- The rest of a row of `dp`, left of which stands `left`. -/
def fill (unit left : Nat) : List Nat → List Nat → List Nat
  | other :: b, diagonal :: above :: row =>
    let dist := if unit = other then diagonal else 1 + min above (min left diagonal)
    dist :: fill unit dist b (above :: row)
  | _, _ => []

def levenshteinDistance (a b : String) : Nat :=
  let next (row : List Nat) (unit : Nat) : List Nat :=
    let first := row.headD 0 + 1
    first :: fill unit first (utf16 b) row
  ((utf16 a).foldl next (List.range (length b + 1))).getLastD 0

def similarity (dist maxLen : Nat) : Number :=
  ((Number.finite 1).sub ((Number.finite dist).div (.finite maxLen))).mul (.finite 100)

def fuzzyAddressMatch (platform : Platform) (address pattern : String) : Number :=
  if address = "" ∨ pattern = "" then .finite 0
  else
    let a := platform.toLowerCase address
    let p := platform.toLowerCase pattern
    if a = p then .finite 100
    else
      let dist := levenshteinDistance a p
      let maxLen := max (length a) (length p)
      if maxLen = 0 then .finite 0
      else if dist ≤ 1 then (Number.finite 70).max (similarity dist maxLen)
      else if dist ≤ 2 then (Number.finite 50).max (similarity dist maxLen)
      else similarity dist maxLen

/-- `name.toLowerCase().replace(/[^a-z0-9\s]/g, '')` -/
def cleaned (platform : Platform) (name : String) : String :=
  String.ofList ((platform.toLowerCase name).toList.filter fun c =>
    ('a' ≤ c && c ≤ 'z') || ('0' ≤ c && c ≤ '9') || isWhitespace c)

def nameSimilarity (a b : String) : Number :=
  let maxLen := max (length a) (length b)
  if maxLen > 0 then similarity (levenshteinDistance a b) maxLen else .finite 0

/-- `text.split(/\s+/).filter(Boolean)` -/
def words (text : String) : List (List Char) := (text.toList.splitOnP isWhitespace).filter (· ≠ [])

def fuzzyNameMatch (platform : Platform) (name : String) (entryName : Option String) (aliases : List String) :
    Number :=
  if name = "" ∨ entryName.getD "" = "" then .finite 0
  else
    let a := cleaned platform name
    let b := cleaned platform (entryName.getD "")
    if a = b then .finite 100
    else
      let baseSimilarity := nameSimilarity a b
      if (Number.finite 90).le baseSimilarity then baseSimilarity
      else if levenshteinDistance a b ≤ 2 then (Number.finite 70).max baseSimilarity
      else
        match (aliases.map fun known => nameSimilarity a (cleaned platform known)).find? baseSimilarity.lt with
        | some aliasSim => aliasSim
        | none =>
          let aWords := words a
          let bWords := words b
          let commonWords := (aWords.filter (· ∈ bWords)).length
          let wordSimilarity := ((Number.finite commonWords).div
            (.finite ((max aWords.length bWords.length : Nat)))).mul (.finite 100)
          if aWords.length > 1 ∧ bWords.length > 1 ∧ (Number.finite 70).lt wordSimilarity then
            wordSimilarity.mul (roundRat (4 / 5))
          else baseSimilarity

def matchResult (entry : SanctionsList) (matchType : MatchType) (matchScore : Number)
    (matchedField matchedValue : String) : MatchResult where
  sanctionsListId := entry.id
  source := entry.source
  listName := entry.listName
  matchType := matchType
  matchScore := matchScore
  matchedField := matchedField
  matchedValue := matchedValue
  entryName := entry.name
  program := entry.program
  country := entry.country

/-- The body of the loop over the entries. -/
def matchEntry (platform : Platform) (address : String) (entry : SanctionsList) : Option MatchResult :=
  let addrLower := platform.toLowerCase address
  let listed := entry.address.getD ""
  let addrScore := fuzzyAddressMatch platform addrLower (platform.toLowerCase listed)
  let pattern := entry.addressPattern.getD ""
  let name := entry.name.getD ""
  let nameScore := fuzzyNameMatch platform name entry.name entry.aliases
  if listed ≠ "" ∧ platform.toLowerCase listed = addrLower then
    some (matchResult entry .exact (.finite 100) "address" address)
  else if length listed > 5 ∧ (Number.finite 70).le addrScore then
    some (matchResult entry .fuzzyAddress addrScore.round "address" address)
  else if pattern ≠ "" ∧ platform.test pattern address = some true then
    some (matchResult entry .regex (.finite 85) "addressPattern" address)
  else if name ≠ "" ∧ (Number.finite 50).le nameScore then
    some (matchResult entry .fuzzyName nameScore.round "name" name)
  else none

def findMatches (platform : Platform) (address : String) (activeLists : List SanctionsList) : List MatchResult :=
  activeLists.filterMap (matchEntry platform address)

def maxScore (results : List MatchResult) : Number :=
  if results.length > 0 then (results.map MatchResult.matchScore).foldl Number.max (.infinite true) else .finite 0

def statusOf (maxScore : Number) : Status :=
  if (Number.finite 95).le maxScore then .blocked
  else if (Number.finite 80).le maxScore then .high_risk
  else if (Number.finite 60).le maxScore then .medium_risk
  else if (Number.finite 30).le maxScore then .low_risk
  else .clear

def matchTypeOf (results : List MatchResult) : String :=
  if results.length > 0 then
    let has (matchType : MatchType) : Bool := results.any fun result => result.matchType = matchType
    if has .exact then MatchType.exact.text
    else if has .fuzzyAddress then MatchType.fuzzyAddress.text
    else if has .fuzzyName then MatchType.fuzzyName.text
    else MatchType.regex.text
  else "no_match"

structure Screened where
  id : String
  address : String
  status : Status
  riskScore : Number
  matchType : String
  results : List MatchResult
  durationMs : Int

/-- A row of `screeningResult` as it is created. -/
structure ScreeningResult where
  address : String
  txHash : Option String
  riskScore : Number
  status : Status
  matchType : String
  matchedEntries : Option (List MatchResult)
  screeningMethod : String
  durationMs : Int

inductive Effect where
  | create (data : ScreeningResult)
  | recordAudit (screened : Screened)
  | triggerComplianceWebhooks (txHash : Option String) (screened : Screened)

/-- What `sanctionsList.findMany` returns. -/
def activeLists (sanctionsList : List SanctionsList) : List SanctionsList :=
  (sanctionsList.filter SanctionsList.isActive).take 10000

/-- `found` and `created` are what the read and the write return, none where they reject. -/
def screenAddress (platform : Platform) (address : String) (options : ScreeningOptions) (startTime now : Int)
    (found : Option (List SanctionsList)) (created : Option String) : Option Screened × List Effect :=
  let durationMs := now - startTime
  if length address < 10 then (some ⟨"", address, .clear, .finite 0, "no_match", [], durationMs⟩, [])
  else
    match found with
    | none => (none, [])
    | some activeLists =>
      let results := findMatches platform address activeLists
      let score := maxScore results
      let status := statusOf score
      let data : ScreeningResult := ⟨address, options.txHash, score, status, matchTypeOf results,
        if results.length > 0 then some results else none, options.method.getD "real_time", durationMs⟩
      match created with
      | none => (none, [.create data])
      | some id =>
        let screened : Screened := ⟨id, address, status, score, matchTypeOf results, results, durationMs⟩
        let alerts := if status = .blocked ∨ status = .high_risk
          then [Effect.triggerComplianceWebhooks options.txHash screened] else []
        (some screened, [.create data, .recordAudit screened] ++ alerts)

/-- No address data of the entry speaks of the address. Equality disregards the case of letters. -/
structure Unrelated (platform : Platform) (address : String) (entry : SanctionsList) : Prop where
  distant : ∀ listed, entry.address = some listed → listed ≠ "" →
    platform.toLowerCase listed ≠ platform.toLowerCase address ∧
    (fuzzyAddressMatch platform (platform.toLowerCase address) (platform.toLowerCase listed)).lt (.finite 70) = true
  unmatched : ∀ pattern, entry.addressPattern = some pattern → pattern ≠ "" →
    platform.test pattern address ≠ some true

def SanctionsList.carriesAddressData (entry : SanctionsList) : Bool :=
  entry.address.getD "" ≠ "" || entry.addressPattern.getD "" ≠ ""

variable {platform : Platform} {address : String} {entry : SanctionsList} {lists : List SanctionsList}
  {id : String}

/-- The name of an entry is compared with itself. -/
theorem fuzzyNameMatch_self (platform : Platform) {name : String} (named : name ≠ "") (aliases : List String) :
    fuzzyNameMatch platform name (some name) aliases = .finite 100 := by
  unfold fuzzyNameMatch
  simp [named]

theorem round_hundred : (Number.finite 100).round = .finite 100 := by
  have floored : ⌊(100 : ℚ) + 1 / 2⌋ = 100 := Int.floor_eq_iff.mpr (by norm_num)
  simp only [Number.round, floored, Int.cast_ofNat]

/-- The evidence of an unrelated address is the name alone. -/
theorem matchEntry_unrelated (unrelated : Unrelated platform address entry) :
    matchEntry platform address entry = if entry.name.getD "" ≠ "" then
      some (matchResult entry .fuzzyName (.finite 100) "name" (entry.name.getD "")) else none := by
  have listed : entry.address.getD "" = "" ∨ entry.address = some (entry.address.getD "") := by
    cases entry.address with
    | none => exact .inl rfl
    | some listed => exact .inr rfl
  have differs : ¬ (entry.address.getD "" ≠ "" ∧
      platform.toLowerCase (entry.address.getD "") = platform.toLowerCase address) := by
    rintro ⟨present, same⟩
    obtain ⟨other, _⟩ := unrelated.distant _ (listed.resolve_left present) present
    exact other same
  have distant : ¬ (length (entry.address.getD "") > 5 ∧ (Number.finite 70).le (fuzzyAddressMatch platform
      (platform.toLowerCase address) (platform.toLowerCase (entry.address.getD ""))) = true) := by
    rintro ⟨long, close⟩
    have present : entry.address.getD "" ≠ "" := by
      intro empty
      rw [empty] at long
      exact absurd long (by decide)
    obtain ⟨_, less⟩ := unrelated.distant _ (listed.resolve_left present) present
    simp only [Number.lt, close, Bool.not_true, Bool.and_false, Bool.false_eq_true] at less
  have unmatched : ¬ (entry.addressPattern.getD "" ≠ "" ∧
      platform.test (entry.addressPattern.getD "") address = some true) := by
    rintro ⟨present, matched⟩
    cases found : entry.addressPattern with
    | none => exact present (by rw [found]; rfl)
    | some pattern =>
      rw [found] at present matched
      exact unrelated.unmatched pattern found present matched
  unfold matchEntry
  simp only [if_neg differs, if_neg distant, if_neg unmatched]
  cases found : entry.name with
  | none => simp
  | some name =>
    simp only [Option.getD_some]
    by_cases empty : name = ""
    · simp [empty]
    · rw [fuzzyNameMatch_self platform empty, if_pos ⟨empty, by decide⟩, if_pos empty, round_hundred]

theorem findMatches_unrelated (unrelated : ∀ entry ∈ lists, Unrelated platform address entry) :
    findMatches platform address lists = [] ↔ ∀ entry ∈ lists, entry.name.getD "" = "" := by
  unfold findMatches
  rw [List.filterMap_eq_nil_iff]
  refine forall₂_congr fun entry member => ?_
  rw [matchEntry_unrelated (unrelated entry member)]
  simp

theorem screenAddress_results (options : ScreeningOptions) (startTime now : Int) (id : String)
    (long : 10 ≤ length address)
    (returned : (screenAddress platform address options startTime now (some lists) (some id)).1 = some screened) :
    screened.results = findMatches platform address lists := by
  unfold screenAddress at returned
  rw [if_neg (by omega)] at returned
  cases returned
  rfl

/-- Whatever the entries are, no match is the status clear. -/
theorem screenAddress_of_no_match (long : 10 ≤ length address) (none_found : findMatches platform address lists = []) :
    (screenAddress platform address options startTime now (some lists) (some id)).1 =
      some ⟨id, address, .clear, .finite 0, "no_match", [], now - startTime⟩ := by
  unfold screenAddress
  rw [if_neg (by omega)]
  simp only [none_found]
  rfl

/-- An entry without address data is unrelated to every address. -/
theorem unrelated_of_no_data (bare : entry.carriesAddressData = false) : Unrelated platform address entry := by
  simp only [SanctionsList.carriesAddressData, Bool.or_eq_false_iff, decide_eq_false_iff_not, not_not] at bare
  constructor
  · intro listed found present
    rw [found] at bare
    exact absurd bare.1 present
  · intro pattern found present
    rw [found] at bare
    exact absurd bare.2 present

theorem filterMap_filter_eq_iff {p : α → Bool} {f : α → Option β} {l : List α} :
    (l.filter p).filterMap f = l.filterMap f ↔ ∀ x ∈ l, p x = false → f x = none := by
  induction l with
  | nil => simp
  | cons x rest ih =>
    rw [List.forall_mem_cons, ← ih]
    cases kept : p x with
    | true =>
      rw [List.filter_cons_of_pos kept]
      cases found : f x with
      | none => simp [List.filterMap_cons_none found]
      | some y => simp [List.filterMap_cons_some found]
    | false =>
      rw [List.filter_cons_of_neg (by simp [kept])]
      cases found : f x with
      | none => simp [List.filterMap_cons_none found]
      | some y =>
        have fewer := ((List.filter_sublist (p := p) (l := rest)).filterMap f).length_le
        rw [List.filterMap_cons_some found]
        constructor
        · intro same
          rw [same, List.length_cons] at fewer
          omega
        · intro impossible
          exact absurd (impossible.1 rfl) (by simp)

/-! ### An address that is listed -/

/-- Every score that is reported has passed a comparison. -/
theorem score_proper (found : matchEntry platform address entry = some result) : result.matchScore ≠ .nan := by
  have rounded {x : Number} {least : ℚ} (enough : (Number.finite least).le x = true) : x.round ≠ .nan := by
    intro undefined
    cases x with
    | nan => cases enough
    | infinite _ | finite _ => cases undefined
  simp only [matchEntry] at found
  split at found
  · cases found
    exact Number.noConfusion
  · split at found
    · rename_i close
      cases found
      exact rounded close.2
    · split at found
      · cases found
        exact Number.noConfusion
      · split at found
        · rename_i alike
          cases found
          exact rounded alike.2
        · cases found

theorem le_foldl_max {scores : List Number} {start : Number} {least : ℚ} (proper : ∀ score ∈ scores, score ≠ .nan)
    (start_proper : start ≠ .nan)
    (enough : (Number.finite least).le start = true ∨ ∃ score ∈ scores, (Number.finite least).le score = true) :
    (Number.finite least).le (scores.foldl Number.max start) = true := by
  induction scores generalizing start with
  | nil =>
    rcases enough with start | ⟨score, member, _⟩
    · exact start
    · cases member
  | cons score rest ih =>
    obtain ⟨first, others⟩ := List.forall_mem_cons.mp proper
    have next_proper : start.max score ≠ .nan := by
      rw [Number.max, if_neg (by rintro (rfl | rfl) <;> contradiction)]
      split
      · exact first
      · exact start_proper
    refine ih others next_proper ?_
    rcases enough with large | ⟨found, member, large⟩
    · exact .inl (le_max_left large first)
    · rcases List.mem_cons.mp member with rfl | later
      · exact .inl (le_max_right large start_proper)
      · exact .inr ⟨found, later, large⟩

/-- An address is blocked when an entry that is read carries it. -/
theorem screenAddress_listed (long : 10 ≤ length address) (member : entry ∈ lists)
    (carries : entry.address = some address) :
    ∃ screened, (screenAddress platform address options startTime now (some lists) (some id)).1 = some screened ∧
      screened.status = .blocked := by
  have nonempty : address ≠ "" := by
    rintro rfl
    exact absurd long (by decide)
  have found : matchEntry platform address entry = some (matchResult entry .exact (.finite 100) "address" address) := by
    unfold matchEntry
    simp only [carries, Option.getD_some]
    rw [if_pos ⟨nonempty, trivial⟩]
  have reported : matchResult entry .exact (.finite 100) "address" address ∈ findMatches platform address lists :=
    List.mem_filterMap.mpr ⟨entry, member, found⟩
  have highest : (Number.finite 95).le (maxScore (findMatches platform address lists)) = true := by
    rw [maxScore, if_pos (List.length_pos_of_mem reported)]
    refine le_foldl_max ?_ Number.noConfusion (.inr ⟨.finite 100, List.mem_map.mpr ⟨_, reported, rfl⟩, by decide⟩)
    intro score scored
    obtain ⟨result, listed, rfl⟩ := List.mem_map.mp scored
    obtain ⟨entry, _, matched⟩ := List.mem_filterMap.mp listed
    exact score_proper matched
  unfold screenAddress
  rw [if_neg (by omega)]
  refine ⟨_, rfl, ?_⟩
  simp only [statusOf, if_pos highest]

/-- Letters of the basic alphabet only, and patterns that match nothing. -/
def asciiPlatform : Platform where
  toLowerCase text := String.ofList (text.toList.map Char.toLower)
  test _ _ := some false

def listed (id : Nat) (name address : Option String) : SanctionsList :=
  { source := .ofac_sdn, sourceUrl := none, listVersion := "2024-01-01", listName := none, entityType := "individual",
    address := address, addressPattern := none, name := name, aliases := [], program := none, country := none,
    idDocument := none, citizenship := [], birthDate := none, placeOfBirth := none, title := none,
    addedToListAt := 0, id := id, isActive := true }

/-- When an address is clear that no address data speaks of, and when the entries without
address data make no difference to what is found. -/
theorem unrelated_address_clear_iff (platform : Platform) (sanctionsList : List SanctionsList) (address : String)
    (options : ScreeningOptions) (startTime now : Int) (id : String) :
    (10 ≤ length address → (∀ entry ∈ activeLists sanctionsList, Unrelated platform address entry) →
      ((∃ screened, (screenAddress platform address options startTime now (some (activeLists sanctionsList))
        (some id)).1 = some screened ∧ screened.status = .clear ∧ screened.results = []) ↔
      ∀ entry ∈ activeLists sanctionsList, entry.name.getD "" = "")) ∧
    (findMatches platform address ((activeLists sanctionsList).filter SanctionsList.carriesAddressData) =
        findMatches platform address (activeLists sanctionsList) ↔
      ∀ entry ∈ activeLists sanctionsList, entry.carriesAddressData = false → entry.name.getD "" = "") := by
  constructor
  · intro long unrelated
    rw [← findMatches_unrelated unrelated]
    constructor
    · rintro ⟨screened, returned, _, none_found⟩
      have results := screenAddress_results options startTime now id long returned
      rw [← results, none_found]
    · intro none_found
      exact ⟨_, screenAddress_of_no_match long none_found, rfl, rfl⟩
  · unfold findMatches
    rw [filterMap_filter_eq_iff]
    refine forall₂_congr fun entry _ => forall_congr' fun bare => ?_
    rw [matchEntry_unrelated (unrelated_of_no_data bare)]
    simp

theorem unrelated_address_clear_unnamed :
    ∃ screened, (screenAddress asciiPlatform "gabcdefghij" ⟨none, none⟩ 0 0
      (some (activeLists [listed 1 none (some "gzyxwvutsrq")])) (some "s1")).1 = some screened ∧
      screened.status = .clear ∧ screened.results = [] := by
  refine ((unrelated_address_clear_iff asciiPlatform [listed 1 none (some "gzyxwvutsrq")] "gabcdefghij" ⟨none, none⟩
    0 0 "s1").1 (by decide) ?_).mpr (by decide)
  intro entry member
  obtain rfl : entry = listed 1 none (some "gzyxwvutsrq") := List.mem_singleton.mp member
  refine ⟨fun address found _ => ?_, fun pattern found => ?_⟩
  · cases found
    exact ⟨by decide, by decide +kernel⟩
  · cases found

/-- A name on the list, without any address, blocks every address. -/
theorem unrelated_address_blocked :
    ¬ ∀ (platform : Platform) (sanctionsList : List SanctionsList) (address : String) (options : ScreeningOptions)
      (startTime now : Int) (id : String), 10 ≤ length address →
      (∀ entry ∈ sanctionsList, entry.isActive = true → Unrelated platform address entry) →
      ∃ screened, (screenAddress platform address options startTime now (some (activeLists sanctionsList))
        (some id)).1 = some screened ∧ screened.status = .clear ∧ screened.results = [] := by
  intro claimed
  have unrelated : Unrelated asciiPlatform "gabcdefghij" (listed 1 (some "john doe") none) := unrelated_of_no_data (by decide)
  obtain ⟨screened, returned, _, none_found⟩ := claimed asciiPlatform [listed 1 (some "john doe") none] "gabcdefghij"
    ⟨none, none⟩ 0 0 "s1" (by decide) (fun entry member _ => by
      rw [List.mem_singleton.mp member]
      exact unrelated)
  have results := screenAddress_results ⟨none, none⟩ 0 0 "s1" (by decide) returned
  have active : activeLists [listed 1 (some "john doe") none] = [listed 1 (some "john doe") none] := by decide
  rw [none_found, active, findMatches, List.filterMap_cons, matchEntry_unrelated unrelated, if_pos (by decide)] at results
  cases results

end Octraban.Compliance
