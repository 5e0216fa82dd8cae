import Octraban.Compliance.ScreeningEngine
import Octraban.Core.CodeUnits
import Octraban.Core.EditDistance
import Octraban.Core.Letters

/-! screening-engine.ts: the table of `levenshteinDistance` holds the least number of edits, and an
address with a single slip in it is found on the list. -/
namespace Octraban.Compliance
open JavaScript EditDistance

variable {unit : ℕ} {above consumed b : List ℕ}

/-! ### The rows of the table -/

/-- The cells of a row from some column on. What lies above the row and left of the column has been
consumed and stands in reverse, its last unit first. -/
def cells (above consumed : List ℕ) : List ℕ → List ℕ
  | [] => [distance above consumed]
  | next :: b => distance above consumed :: cells above (next :: consumed) b

theorem cells_eq_cons (above consumed b : List ℕ) :
    ∃ rest, cells above consumed b = distance above consumed :: rest := by
  cases b with
  | nil => exact ⟨[], rfl⟩
  | cons next b => exact ⟨_, rfl⟩

/-- Each cell follows from those left of it, above it and in the corner. -/
theorem fill_cells (unit : ℕ) (above consumed b : List ℕ) :
    distance (unit :: above) consumed :: fill unit (distance (unit :: above) consumed) b (cells above consumed b) =
      cells (unit :: above) consumed b := by
  induction b generalizing consumed with
  | nil => rfl
  | cons next b ih =>
    obtain ⟨rest, row⟩ := cells_eq_cons above (next :: consumed) b
    have cell : (if unit = next then distance above consumed
        else 1 + min (distance above (next :: consumed)) (min (distance (unit :: above) consumed) (distance above consumed))) =
        distance (unit :: above) (next :: consumed) := by
      rw [distance_cons, min_left_comm]
    have later := ih (next :: consumed)
    rw [row] at later
    rw [cells, cells, row, fill, cell, later]

theorem cells_first (consumed b : List ℕ) :
    cells [] consumed b = List.range' consumed.length (b.length + 1) := by
  induction b generalizing consumed with
  | nil => rw [cells, distance_nil_left, List.length_nil, List.range'_one]
  | cons next b ih =>
    rw [cells, ih, distance_nil_left]
    rfl

theorem getLastD_cells (above consumed b : List ℕ) (default : ℕ) :
    (cells above consumed b).getLastD default = distance above (b.reverse ++ consumed) := by
  induction b generalizing consumed default with
  | nil => rfl
  | cons next b ih =>
    rw [cells, List.getLastD_cons, ih, List.reverse_cons, List.append_assoc, List.singleton_append]

theorem levenshteinDistance_eq (a b : String) : levenshteinDistance a b = distance (utf16 a) (utf16 b) := by
  have rows (units above : List ℕ) :
      units.foldl (fun row unit => (row.headD 0 + 1) :: fill unit (row.headD 0 + 1) (utf16 b) row)
        (cells above [] (utf16 b)) = cells (units.reverse ++ above) [] (utf16 b) := by
    induction units generalizing above with
    | nil => rfl
    | cons unit units ih =>
      obtain ⟨rest, row⟩ := cells_eq_cons above [] (utf16 b)
      have first : (cells above [] (utf16 b)).headD 0 + 1 = distance (unit :: above) [] := by
        rw [row, List.headD_cons, distance_nil_right, distance_nil_right, List.length_cons]
      rw [List.foldl_cons, first, fill_cells, ih, List.reverse_cons, List.append_assoc, List.singleton_append]
  have start : List.range (JavaScript.length b + 1) = cells [] [] (utf16 b) := by
    rw [cells_first, List.range_eq_range']
    rfl
  unfold levenshteinDistance
  dsimp only
  rw [start, rows, getLastD_cells, List.append_nil, List.append_nil, distance_reverse]

theorem utf16_inj {a b : String} (same : utf16 a = utf16 b) : a = b := by
  have chars : a.toList = b.toList := by
    rw [← CodeUnits.scalars_units, ← CodeUnits.scalars_units, CodeUnits.units, CodeUnits.units, same]
  exact String.toList_injective chars

/-- The table computes the least number of insertions, deletions and replacements of one code unit
that turn one text into the other, and so a metric on texts. -/
theorem levenshteinDistance_metric (a b c : String) :
    IsLeast {n | Edits n (utf16 a) (utf16 b)} (levenshteinDistance a b) ∧
    (levenshteinDistance a b = 0 ↔ a = b) ∧
    levenshteinDistance a b = levenshteinDistance b a ∧
    levenshteinDistance a c ≤ levenshteinDistance a b + levenshteinDistance b c ∧
    levenshteinDistance a b ≤ max (JavaScript.length a) (JavaScript.length b) := by
  simp only [levenshteinDistance_eq]
  refine ⟨isLeast_distance _ _, ?_, distance_comm _ _, distance_triangle _ _ _, distance_le_max _ _⟩
  rw [distance_eq_zero_iff]
  constructor
  · exact utf16_inj
  · exact congrArg utf16

/-! ### One slip -/

variable {platform : Platform} {address listedAddress : String} {entry : SanctionsList} {lists : List SanctionsList}

theorem similarity_proper {dist maxLen : ℕ} (some_unit : maxLen ≠ 0) : similarity dist maxLen ≠ .nan := by
  have rounded (x : ℚ) : roundRat x ≠ .nan := by
    obtain ⟨magnitude, _, _, rounds⟩ := roundRat_magnitude x
    rw [rounds]
    split <;> exact Number.noConfusion
  have nonzero : (maxLen : ℚ) ≠ 0 := Nat.cast_ne_zero.mpr some_unit
  unfold similarity
  simp only [Number.div, if_pos nonzero]
  cases share : roundRat (dist / maxLen) with
  | nan => exact absurd share (rounded _)
  | infinite negative => cases negative <;> exact Number.noConfusion
  | finite x =>
    simp only [Number.sub, Number.neg, Number.add]
    cases rest : roundRat (1 + -x) with
    | nan => exact absurd rest (rounded _)
    | infinite negative => cases negative <;> exact Number.noConfusion
    | finite y => exact rounded _

theorem le_round {x : ℤ} {a : Number} (enough : (Number.finite x).le a = true) : (Number.finite x).le a.round = true := by
  cases a with
  | nan => cases enough
  | infinite negative => exact enough
  | finite y =>
    have bound : (x : ℚ) ≤ y := of_decide_eq_true enough
    have floored : x ≤ ⌊y + 1 / 2⌋ := Int.le_floor.mpr (by linarith)
    exact decide_eq_true (Int.cast_le.mpr floored)

/-- One edit apart, in whatever letters, is a score of seventy. -/
theorem fuzzyAddressMatch_of_one_edit (some_address : address ≠ "") (some_listed : listedAddress ≠ "")
    (slip : distance (utf16 (platform.toLowerCase address)) (utf16 (platform.toLowerCase listedAddress)) ≤ 1) :
    (Number.finite 70).le (fuzzyAddressMatch platform address listedAddress) = true := by
  unfold fuzzyAddressMatch
  rw [if_neg (by simp [some_address, some_listed])]
  dsimp only
  split
  · decide
  · rename_i differ
    have some_unit : max (JavaScript.length (platform.toLowerCase address))
        (JavaScript.length (platform.toLowerCase listedAddress)) ≠ 0 := by
      intro none
      obtain ⟨left, right⟩ := Nat.max_eq_zero_iff.mp none
      apply differ
      apply utf16_inj
      rw [List.length_eq_zero_iff.mp left, List.length_eq_zero_iff.mp right]
    rw [if_neg some_unit, levenshteinDistance_eq, if_pos slip]
    exact le_max_left (by decide) (similarity_proper some_unit)

/-- What an entry finds under a score of seventy is found by its address already. -/
theorem matchEntry_of_score (long : 5 < JavaScript.length listedAddress) (carries : entry.address = some listedAddress)
    (close : (Number.finite 70).le (fuzzyAddressMatch platform (platform.toLowerCase address)
      (platform.toLowerCase listedAddress)) = true) :
    ∃ result, matchEntry platform address entry = some result ∧ (Number.finite 70).le result.matchScore = true := by
  unfold matchEntry
  simp only [carries, Option.getD_some]
  split
  · exact ⟨_, rfl, rfl⟩
  · rw [if_pos ⟨long, close⟩]
    exact ⟨_, rfl, le_round (x := 70) close⟩

theorem matchEntry_id (found : matchEntry platform address entry = some result) : result.sanctionsListId = entry.id := by
  simp only [matchEntry] at found
  split_ifs at found <;> cases found <;> rfl

theorem le_maxScore {results : List MatchResult} {least : ℚ} {result : MatchResult}
    (proper : ∀ result ∈ results, result.matchScore ≠ .nan) (member : result ∈ results)
    (enough : (Number.finite least).le result.matchScore = true) : (Number.finite least).le (maxScore results) = true := by
  rw [maxScore, if_pos (List.length_pos_of_mem member)]
  refine le_foldl_max ?_ Number.noConfusion (.inr ⟨_, List.mem_map.mpr ⟨_, member, rfl⟩, enough⟩)
  intro score scored
  obtain ⟨result, listed, rfl⟩ := List.mem_map.mp scored
  exact proper result listed

theorem statusOf_of_sixty {score : Number} (enough : (Number.finite 60).le score = true) :
    statusOf score ∈ [Status.blocked, .high_risk, .medium_risk] := by
  unfold statusOf
  rw [if_pos enough]
  simp only [List.mem_cons, List.not_mem_nil, or_false]
  split
  · exact .inl rfl
  · split
    · exact .inr (.inl rfl)
    · exact .inr (.inr rfl)

theorem asciiPlatform_lowered (text : String) :
    asciiPlatform.toLowerCase (asciiPlatform.toLowerCase text) = asciiPlatform.toLowerCase text := by
  simp only [asciiPlatform, String.toList_ofList, List.map_map]
  congr 1
  exact List.map_congr_left fun c _ => Letters.toLower_toLower c

theorem asciiPlatform_kept (text : String) (some_text : text ≠ "") : asciiPlatform.toLowerCase text ≠ "" := by
  intro empty
  have chars := congrArg String.toList empty
  simp only [asciiPlatform, String.toList_ofList, String.toList_empty, List.map_eq_nil_iff] at chars
  exact some_text (String.toList_injective chars)

/-- An address that one insertion, deletion or replacement of a code unit, or the case of letters,
keeps apart from an address that is read from the list never passes: its status is medium risk or worse. -/
theorem screenAddress_one_slip (platform : Platform) (lists : List SanctionsList) (entry : SanctionsList)
    (address listedAddress id : String) (options : ScreeningOptions) (startTime now : ℤ)
    (lowered : ∀ text, platform.toLowerCase (platform.toLowerCase text) = platform.toLowerCase text)
    (kept : ∀ text, text ≠ "" → platform.toLowerCase text ≠ "")
    (long : 10 ≤ JavaScript.length address) (member : entry ∈ lists) (carries : entry.address = some listedAddress)
    (long_listed : 5 < JavaScript.length listedAddress) (n : ℕ) (single : n ≤ 1)
    (slip : Edits n (utf16 (platform.toLowerCase address)) (utf16 (platform.toLowerCase listedAddress))) :
    ∃ screened, (screenAddress platform address options startTime now (some lists) (some id)).1 = some screened ∧
      screened.status ∈ [Status.blocked, .high_risk, .medium_risk] ∧
      ∃ result ∈ screened.results, result.sanctionsListId = entry.id := by
  have some_listed : listedAddress ≠ "" := by
    rintro rfl
    exact absurd long_listed (by decide)
  have some_address : address ≠ "" := by
    rintro rfl
    exact absurd long (by decide)
  have near : distance (utf16 (platform.toLowerCase (platform.toLowerCase address)))
      (utf16 (platform.toLowerCase (platform.toLowerCase listedAddress))) ≤ 1 := by
    rw [lowered, lowered]
    exact ((isLeast_distance _ _).2 slip).trans single
  have close := fuzzyAddressMatch_of_one_edit (kept _ some_address) (kept _ some_listed) near
  obtain ⟨result, found, enough⟩ := matchEntry_of_score long_listed carries close
  have reported : result ∈ findMatches platform address lists := List.mem_filterMap.mpr ⟨entry, member, found⟩
  have proper : ∀ other ∈ findMatches platform address lists, other.matchScore ≠ .nan := by
    intro other listed
    obtain ⟨source, _, matched⟩ := List.mem_filterMap.mp listed
    exact score_proper matched
  have highest := le_maxScore proper reported enough
  unfold screenAddress
  rw [if_neg (by omega)]
  refine ⟨_, rfl, statusOf_of_sixty (le_of_finite_le (by norm_num) highest), result, reported, ?_⟩
  exact matchEntry_id found

theorem screenAddress_one_slip_replaced :
    ∃ screened, (screenAddress asciiPlatform "Gabcdefghij" ⟨none, none⟩ 0 0
      (some [listed 1 none (some "gabcdXfghij")]) (some "s1")).1 = some screened ∧
      screened.status ∈ [Status.blocked, .high_risk, .medium_risk] ∧
      ∃ result ∈ screened.results, result.sanctionsListId = 1 := by
  have replaced : Edits 1 (utf16 "gabcdefghij") (utf16 "gabcdxfghij") :=
    .one (.replace [103, 97, 98, 99, 100] 101 120 [102, 103, 104, 105, 106])
  apply screenAddress_one_slip asciiPlatform [listed 1 none (some "gabcdXfghij")] (listed 1 none (some "gabcdXfghij"))
    "Gabcdefghij" "gabcdXfghij" "s1" ⟨none, none⟩ 0 0 asciiPlatform_lowered asciiPlatform_kept (by decide)
    (List.mem_singleton.mpr rfl) rfl (by decide) 1 le_rfl
  exact replaced

end Octraban.Compliance
