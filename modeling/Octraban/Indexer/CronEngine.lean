import Octraban.Archive.Archiver
import Octraban.Core.Objects
import Octraban.Core.Rounding

/-! The cron parser of cron-engine.ts: a search minute by minute, and fields whose steps are added one by one. The
fuel bounds the additions of each step loop; times are in milliseconds, and time zones are whole minutes off. -/
namespace Octraban.CronEngine
open JavaScript
open Archiver (civil)

def ALIASES : List (String × String) := [("@hourly", "0 * * * *"), ("@daily", "0 0 * * *"), ("@weekly", "0 0 * * 0"),
  ("@monthly", "0 0 1 * *"), ("@yearly", "0 0 1 1 *"), ("@annually", "0 0 1 1 *")]

/-- Nothing stands for what the table inherits, which has no `split`. -/
def expandAlias (expr : String) : Option String :=
  if trim expr ∈ inherited then none else some ((ALIASES.lookup (trim expr)).getD (trim expr))

/-- `split(/\s+/)` of a text without whitespace at its ends. -/
def splitFields (expr : String) : List String :=
  if expr = "" then [""] else ((expr.toList.splitOnP isWhitespace).filter (· ≠ [])).map String.ofList

/-- With the infinities. -/
def parseInt (text : String) : Number :=
  let (sign, rest) := readSign (text.toList.dropWhile isWhitespace)
  let digits := rest.takeWhile Char.isDigit
  if digits.isEmpty then .nan else roundRat (sign * value digits)

/-- A value and the range of its field; nothing stands for a field that is missing. -/
structure Check where
  field : Option String
  value : ℕ
  min : ℕ
  max : ℕ
  deriving DecidableEq

structure Steps where
  start : Number
  stop : Number
  step : Number
  deriving DecidableEq

def piece (text : String) (separator : Char) (i : ℕ) : String := (split text separator).getD i ""

def Check.steps (c : Check) (part : String) : Steps :=
  let rangeStr := piece part '/' 0
  { start := if rangeStr = "*" then .finite c.min else parseInt (piece rangeStr '-' 0)
    stop := if '-' ∈ rangeStr.toList then parseInt (piece rangeStr '-' 1) else .finite c.max
    step := parseInt (piece part '/' 1) }

/-- Nothing stands for a loop that does not end within the iterations given. -/
def stepLoop (stop step value : Number) : ℕ → Number → Option Bool
  | 0, _ => none
  | fuel + 1, v =>
    if v.le stop then if v = value then some true else stepLoop stop step value fuel (v.add step)
    else some false

inductive CronError where
  | typeError
  | unable
  deriving DecidableEq

section
variable (fuel : ℕ)

def matchPart (c : Check) (part : String) : Option Bool :=
  let value : Number := .finite c.value
  if '/' ∈ part.toList then stepLoop (c.steps part).stop (c.steps part).step value fuel (c.steps part).start
  else if '-' ∈ part.toList then some ((number (piece part '-' 0)).le value && value.le (number (piece part '-' 1)))
  else some (parseInt part = value)

def matchParts (c : Check) : List String → Option Bool
  | [] => some false
  | part :: rest =>
    match matchPart fuel c part with
    | some false => matchParts c rest
    | other => other

def matchField (c : Check) : Option (Except CronError Bool) :=
  match c.field with
  | none => some (.error .typeError)
  | some field => if field = "*" then some (.ok true) else (matchParts fuel c (split field ',')).map .ok

/-- The fields of a minute, in the order in which they are looked at. -/
def checks (fields : List String) (time : ℤ) : List Check :=
  let fields := if 6 ≤ fields.length then fields.drop 1 else fields
  let (_, month, day) := civil time
  [⟨fields[3]?, month, 1, 12⟩, ⟨fields[2]?, day, 1, 31⟩, ⟨fields[4]?, ((time / 86400000 + 4) % 7).toNat, 0, 6⟩,
    ⟨fields[1]?, (time / 3600000 % 24).toNat, 0, 23⟩, ⟨fields[0]?, (time / 60000 % 60).toNat, 0, 59⟩]

/-- A field that does not match ends the conjunction. -/
def matchFields : List Check → Option (Except CronError Bool)
  | [] => some (.ok true)
  | c :: rest =>
    match matchField fuel c with
    | some (.ok true) => matchFields rest
    | other => other

/-- The minutes that are left before the limit. -/
def search (fields : List String) : ℕ → ℤ → Option (Except CronError ℤ)
  | 0, _ => some (.error .unable)
  | n + 1, cursor =>
    match matchFields fuel (checks fields cursor) with
    | none => none
    | some (.error error) => some (.error error)
    | some (.ok true) => some (.ok cursor)
    | some (.ok false) => search fields n (cursor + 60000)

/-- The minutes of 4 * 365 days. -/
def HORIZON : ℕ := 4 * 365 * 24 * 60

/-- Dates end here. -/
def MAX_TIME : ℤ := 8640000000000000

def start (after : ℤ) : ℤ := (after + 60000) / 60000 * 60000

def limit (after : ℤ) : ℤ := start after + HORIZON * 60000

/-- No date is before a limit that is none. -/
def nextCronDate (expression : String) (after : ℤ) : Option (Except CronError ℤ) :=
  match expandAlias expression with
  | none => some (.error .typeError)
  | some expr =>
    if limit after ≤ MAX_TIME then search fuel (splitFields expr) HORIZON (start after) else some (.error .unable)

def isValidCronExpression (expression : String) : Option Bool :=
  match expandAlias expression with
  | none => some false
  | some expr =>
    if (splitFields expr).length < 5 ∨ 6 < (splitFields expr).length then some false
    else (nextCronDate fuel expression 0).map fun result => result.toBool

end

/-! ### What a field says -/

def PartMatches (c : Check) (part : String) : Prop :=
  let value : Number := .finite c.value
  if '/' ∈ part.toList then Hits (c.steps part).stop (c.steps part).step value (c.steps part).start
  else if '-' ∈ part.toList then (number (piece part '-' 0)).le value ∧ value.le (number (piece part '-' 1))
  else parseInt part = value

/-- The steps of the part come neither to the value nor past the end of the range. -/
def PartStalls (c : Check) (part : String) : Prop :=
  '/' ∈ part.toList ∧ ¬ PartMatches c part ∧ Stalls (c.steps part).stop (c.steps part).step (c.steps part).start

def FieldMatches (c : Check) : Prop :=
  ∃ field, c.field = some field ∧ (field = "*" ∨ ∃ part ∈ split field ',', PartMatches c part)

def Matches (fields : List String) (time : ℤ) : Prop := ∀ c ∈ checks fields time, FieldMatches c

/-- The loop over a list comes to an element: it goes on after each one before. -/
inductive Reached {α : Type} (goesOn : α → Prop) : List α → α → Prop where
  | head {x : α} {rest : List α} : Reached goesOn (x :: rest) x
  | tail {x y : α} {rest : List α} : goesOn y → Reached goesOn rest x → Reached goesOn (y :: rest) x

/-- The part is looked at: no part before it in the field matches. -/
def Check.LooksAt (c : Check) (part : String) : Prop := ∃ field, c.field = some field ∧ field ≠ "*" ∧
  Reached (fun p => ¬ PartMatches c p) (split field ',') part

def minutes : ℕ → ℤ → List ℤ
  | 0, _ => []
  | n + 1, cursor => cursor :: minutes n (cursor + 60000)

/-- No part that is looked at stalls, in the minutes up to the first one that matches. -/
def NeverStalls (fields : List String) (n : ℕ) (cursor : ℤ) : Prop :=
  ∀ time, Reached (fun t => ¬ Matches fields t) (minutes n cursor) time →
    ∀ c, Reached FieldMatches (checks fields time) c → ∀ part, c.LooksAt part → ¬ PartStalls c part

variable {fuel m n : ℕ} {stop step value v : Number} {c : Check} {part : String} {cs : List Check} {fields : List String}
  {cursor after time : ℤ}

/-! ### Steps -/

theorem stepLoop_true (read : stepLoop stop step value fuel v = some true) : Hits stop step value v := by
  induction fuel generalizing v with
  | zero => cases read
  | succ fuel ih =>
    rw [stepLoop] at read
    split at read
    · rename_i inside
      split at read
      · rename_i same
        exact same ▸ .here (same ▸ inside)
      · exact .next inside (ih read)
    · cases read

theorem stepLoop_false (read : stepLoop stop step value fuel v = some false) :
    ¬ Hits stop step value v ∧ Leaves stop step v := by
  induction fuel generalizing v with
  | zero => cases read
  | succ fuel ih =>
    rw [stepLoop] at read
    split at read
    · rename_i inside
      split at read
      · cases read
      · rename_i other
        obtain ⟨missed, leaves⟩ := ih read
        refine ⟨fun hits => ?_, .later leaves⟩
        cases hits with
        | here _ => exact other rfl
        | next _ hits => exact missed hits
    · rename_i outside
      refine ⟨fun hits => ?_, .now (Bool.eq_false_iff.mpr outside)⟩
      cases hits with
      | here inside => exact outside inside
      | next inside _ => exact outside inside

theorem stepLoop_of_hits (hits : Hits stop step value v) : ∃ fuel, stepLoop stop step value fuel v = some true := by
  induction hits with
  | here inside => exact ⟨1, by rw [stepLoop, if_pos inside, if_pos rfl]⟩
  | @next v inside _ ih =>
    obtain ⟨fuel, read⟩ := ih
    by_cases same : v = value
    · exact ⟨1, by rw [stepLoop, if_pos inside, if_pos same]⟩
    · exact ⟨fuel + 1, by rw [stepLoop, if_pos inside, if_neg same, read]⟩

theorem stepLoop_of_leaves (leaves : Leaves stop step v) : ∃ fuel, (stepLoop stop step value fuel v).isSome := by
  induction leaves with
  | now outside => exact ⟨1, by rw [stepLoop, if_neg (Bool.eq_false_iff.mp outside)]; rfl⟩
  | later _ ih =>
    obtain ⟨fuel, read⟩ := ih
    refine ⟨fuel + 1, ?_⟩
    rw [stepLoop]
    split
    · split
      · rfl
      · exact read
    · rfl

theorem stepLoop_succ (read : (stepLoop stop step value fuel v).isSome) : (stepLoop stop step value (fuel + 1) v).isSome := by
  induction fuel generalizing v with
  | zero => cases read
  | succ fuel ih =>
    rw [stepLoop] at read ⊢
    split
    · rename_i inside
      rw [if_pos inside] at read
      split
      · rfl
      · rename_i other
        rw [if_neg other] at read
        exact ih read
    · rfl

/-! ### Parts -/

theorem double_finite (small : n < 2 ^ 53) : (Number.finite n).Double := by
  intro x same
  rw [← Number.finite.inj same]
  exact roundRat_natCast small

theorem double_parseInt (text : String) : (parseInt text).Double := by
  unfold parseInt
  dsimp only
  split
  · exact fun _ same => nomatch same
  · exact double_roundRat _

/-- The ranges of fields are small. -/
def Check.Small (c : Check) : Prop := c.min < 2 ^ 53

theorem double_start (small : c.Small) (part : String) : (c.steps part).start.Double := by
  unfold Check.steps
  dsimp only
  split
  · exact double_finite small
  · exact double_parseInt _

theorem matchPart_eq {b : Bool} (read : matchPart fuel c part = some b) : b = true ↔ PartMatches c part := by
  unfold matchPart at read
  unfold PartMatches
  dsimp only at read ⊢
  split at read
  · cases b with
    | true => exact iff_of_true rfl (by rw [if_pos ‹_›]; exact stepLoop_true read)
    | false => exact iff_of_false Bool.false_ne_true (by rw [if_pos ‹_›]; exact (stepLoop_false read).1)
  · rw [if_neg ‹_›]
    split at read
    · rw [if_pos ‹_›, ← Option.some.inj read, Bool.and_eq_true]
    · rw [if_neg ‹_›, ← Option.some.inj read, decide_eq_true_eq]

theorem matchPart_mono (le : m ≤ n) (read : (matchPart m c part).isSome) : (matchPart n c part).isSome := by
  induction le with
  | refl => exact read
  | step _ ih =>
    unfold matchPart at ih ⊢
    dsimp only at ih ⊢
    split
    · rw [if_pos ‹_›] at ih
      exact stepLoop_succ ih
    · split <;> rfl

/-- A part is read by some number of additions just when it does not stall. -/
theorem matchPart_ends_iff (small : c.Small) : (∃ fuel, (matchPart fuel c part).isSome) ↔ ¬ PartStalls c part := by
  constructor
  · rintro ⟨fuel, read⟩ ⟨slash, missed, stalls⟩
    obtain ⟨b, read⟩ := Option.isSome_iff_exists.mp read
    have told := matchPart_eq read
    unfold matchPart at read
    rw [if_pos slash] at read
    cases b with
    | true => exact missed (told.mp rfl)
    | false => exact (leaves_iff (double_start small part)).mp (stepLoop_false read).2 stalls
  · intro moves
    unfold matchPart
    by_cases slash : '/' ∈ part.toList
    · simp only [if_pos slash]
      by_cases hits : PartMatches c part
      · unfold PartMatches at hits
        rw [if_pos slash] at hits
        obtain ⟨fuel, read⟩ := stepLoop_of_hits hits
        exact ⟨fuel, by rw [read]; rfl⟩
      · have leaves := (leaves_iff (double_start small part)).mpr fun stalls => moves ⟨slash, hits, stalls⟩
        exact stepLoop_of_leaves leaves
    · simp only [if_neg slash]
      refine ⟨0, ?_⟩
      split <;> rfl

/-! ### Fields -/

variable {parts : List String} {b : Bool} {result : Except CronError Bool}

theorem forall_reached_cons {α : Type} {goesOn P : α → Prop} {y : α} {rest : List α} :
    (∀ x, Reached goesOn (y :: rest) x → P x) ↔ P y ∧ (goesOn y → ∀ x, Reached goesOn rest x → P x) := by
  constructor
  · exact fun all => ⟨all y .head, fun goes x reached => all x (.tail goes reached)⟩
  · rintro ⟨first, others⟩ x reached
    cases reached with
    | head => exact first
    | tail goes reached => exact others goes x reached

theorem matchParts_isSome_iff : (matchParts fuel c parts).isSome ↔
    ∀ part, Reached (fun p => ¬ PartMatches c p) parts part → (matchPart fuel c part).isSome := by
  induction parts with
  | nil => exact iff_of_true rfl fun part reached => nomatch reached
  | cons first rest ih =>
    rw [matchParts, forall_reached_cons, ← ih]
    cases read : matchPart fuel c first with
    | none => simp
    | some b =>
      have told := matchPart_eq read
      cases b with
      | true => simp [told.mp rfl]
      | false =>
        have fails : ¬ PartMatches c first := fun holds => Bool.false_ne_true (told.mpr holds)
        simp [fails]

theorem matchParts_eq (read : matchParts fuel c parts = some b) : b = true ↔ ∃ part ∈ parts, PartMatches c part := by
  induction parts with
  | nil =>
    rw [← Option.some.inj read]
    exact iff_of_false Bool.false_ne_true fun ⟨_, member, _⟩ => nomatch member
  | cons first rest ih =>
    rw [matchParts] at read
    simp only [List.mem_cons, exists_eq_or_imp]
    split at read
    · rename_i no
      rw [ih read, or_iff_right fun holds => Bool.false_ne_true ((matchPart_eq no).mpr holds)]
    · rename_i other
      cases b with
      | false => exact absurd read other
      | true => exact iff_of_true rfl (.inl ((matchPart_eq read).mp rfl))

theorem matchField_isSome_iff : (matchField fuel c).isSome ↔ ∀ part, c.LooksAt part → (matchPart fuel c part).isSome := by
  unfold matchField Check.LooksAt
  cases c.field with
  | none => exact iff_of_true rfl fun part ⟨field, missing, _⟩ => nomatch missing
  | some field =>
    dsimp only
    split
    · rename_i every
      exact iff_of_true rfl fun part ⟨other, same, given, _⟩ => absurd every (Option.some.inj same ▸ given)
    · rename_i named
      rw [Option.isSome_map, matchParts_isSome_iff]
      constructor
      · rintro all part ⟨other, same, -, reached⟩
        exact all part (Option.some.inj same ▸ reached)
      · exact fun all part reached => all part ⟨field, rfl, named, reached⟩

/-- A field throws only if it is missing. -/
theorem matchField_eq (read : matchField fuel c = some result) :
    (result = .ok true ↔ FieldMatches c) ∧ (c.field ≠ none → ∃ b, result = .ok b) := by
  unfold matchField at read
  unfold FieldMatches
  cases given : c.field with
  | none =>
    rw [given] at read
    rw [← Option.some.inj read]
    exact ⟨iff_of_false (fun same => nomatch same) fun ⟨_, same, _⟩ => (nomatch same), fun other => absurd rfl other⟩
  | some field =>
    rw [given] at read
    dsimp only at read
    split at read
    · rename_i every
      rw [← Option.some.inj read]
      exact ⟨iff_of_true rfl ⟨field, rfl, .inl every⟩, fun _ => ⟨true, rfl⟩⟩
    · rename_i named
      obtain ⟨b, parts, rfl⟩ := Option.map_eq_some_iff.mp read
      have told := matchParts_eq parts
      refine ⟨?_, fun _ => ⟨b, rfl⟩⟩
      constructor
      · exact fun same => ⟨field, rfl, .inr (told.mp (Except.ok.inj same))⟩
      · rintro ⟨other, same, every | matching⟩
        · exact absurd (Option.some.inj same ▸ every) named
        · rw [told.mpr (Option.some.inj same ▸ matching)]

theorem matchFields_isSome_iff : (matchFields fuel cs).isSome ↔
    ∀ c, Reached FieldMatches cs c → ∀ part, c.LooksAt part → (matchPart fuel c part).isSome := by
  induction cs with
  | nil => exact iff_of_true rfl fun c reached => nomatch reached
  | cons first rest ih =>
    rw [forall_reached_cons, ← matchField_isSome_iff, ← ih, matchFields]
    cases read : matchField fuel first with
    | none => simp
    | some result =>
      have told := (matchField_eq read).1
      by_cases holds : FieldMatches first
      · rw [told.mpr holds]
        simp [holds]
      · have other : result ≠ .ok true := fun same => holds (told.mp same)
        split
        · rename_i same
          exact absurd (Option.some.inj same) other
        · simp [holds]

theorem matchFields_eq (read : matchFields fuel cs = some result) :
    (result = .ok true ↔ ∀ c ∈ cs, FieldMatches c) ∧ ((∀ c ∈ cs, c.field ≠ none) → ∃ b, result = .ok b) := by
  induction cs with
  | nil =>
    rw [← Option.some.inj read]
    exact ⟨iff_of_true rfl fun c member => (nomatch member), fun _ => ⟨true, rfl⟩⟩
  | cons first rest ih =>
    rw [matchFields] at read
    rw [List.forall_mem_cons, List.forall_mem_cons]
    split at read
    · rename_i yes
      have holds := (matchField_eq yes).1.mp rfl
      exact ⟨(ih read).1.trans (and_iff_right holds).symm, fun given => (ih read).2 given.2⟩
    · rename_i other
      have told := matchField_eq read
      have fails : result ≠ .ok true := fun same => other (same ▸ read)
      exact ⟨iff_of_false fails fun all => fails (told.1.mpr all.1), fun given => told.2 given.1⟩

/-! ### The search -/

theorem field_of_checks (enough : 5 ≤ fields.length) : ∀ c ∈ checks fields time, c.field ≠ none := by
  unfold checks
  dsimp only
  split
  · simp
    omega
  · have some : fields ≠ [] := List.ne_nil_of_length_pos (by omega)
    simp [some]
    omega

theorem search_isSome_iff (enough : 5 ≤ fields.length) : (search fuel fields n cursor).isSome ↔
    ∀ time, Reached (fun t => ¬ Matches fields t) (minutes n cursor) time →
      (matchFields fuel (checks fields time)).isSome := by
  induction n generalizing cursor with
  | zero => exact iff_of_true rfl fun time reached => nomatch reached
  | succ n ih =>
    rw [minutes, forall_reached_cons, ← ih, search]
    cases read : matchFields fuel (checks fields cursor) with
    | none => simp
    | some result =>
      have told := matchFields_eq read
      obtain ⟨b, rfl⟩ := told.2 (field_of_checks enough)
      cases b with
      | true =>
        have holds : Matches fields cursor := told.1.mp rfl
        simp [holds]
      | false =>
        have fails : ¬ Matches fields cursor := fun holds => nomatch told.1.mpr holds
        simp [fails]

/-- The search returns the first minute that matches. -/
theorem search_eq {result : Except CronError ℤ} (enough : 5 ≤ fields.length)
    (read : search fuel fields n cursor = some result) (time : ℤ) :
    result = .ok time ↔ Reached (fun t => ¬ Matches fields t) (minutes n cursor) time ∧ Matches fields time := by
  induction n generalizing cursor with
  | zero =>
    rw [← Option.some.inj read]
    exact iff_of_false (fun same => nomatch same) fun both => nomatch both.1
  | succ n ih =>
    rw [search] at read
    rw [minutes]
    cases found : matchFields fuel (checks fields cursor) with
    | none =>
      rw [found] at read
      cases read
    | some fieldsResult =>
      have told := matchFields_eq found
      obtain ⟨b, rfl⟩ := told.2 (field_of_checks enough)
      rw [found] at read
      cases b with
      | true =>
        have holds : Matches fields cursor := told.1.mp rfl
        rw [← Option.some.inj read]
        constructor
        · rintro same
          cases same
          exact ⟨.head, holds⟩
        · rintro ⟨reached, -⟩
          cases reached with
          | head => rfl
          | tail goes _ => exact absurd holds goes
      | false =>
        have fails : ¬ Matches fields cursor := fun holds => nomatch told.1.mpr holds
        rw [ih read]
        constructor
        · exact fun both => ⟨.tail fails both.1, both.2⟩
        · rintro ⟨reached, holds⟩
          cases reached with
          | head => exact absurd holds fails
          | tail _ reached => exact ⟨reached, holds⟩

/-- One number of additions is enough for finitely many parts. -/
theorem exists_fuel (candidates : List (Check × String)) (small : ∀ candidate ∈ candidates, candidate.1.Small) :
    ∃ fuel, ∀ candidate ∈ candidates, ¬ PartStalls candidate.1 candidate.2 →
      (matchPart fuel candidate.1 candidate.2).isSome := by
  induction candidates with
  | nil => exact ⟨0, fun candidate member => nomatch member⟩
  | cons first rest ih =>
    obtain ⟨here, others⟩ := List.forall_mem_cons.mp small
    obtain ⟨fuel, enough⟩ := ih others
    by_cases stalls : PartStalls first.1 first.2
    · exact ⟨fuel, List.forall_mem_cons.mpr ⟨fun moves => absurd stalls moves, enough⟩⟩
    · obtain ⟨more, read⟩ := (matchPart_ends_iff here).mpr stalls
      refine ⟨max fuel more, List.forall_mem_cons.mpr ⟨fun _ => matchPart_mono (Nat.le_max_right _ _) read, ?_⟩⟩
      exact fun candidate member moves => matchPart_mono (Nat.le_max_left _ _) (enough candidate member moves)

theorem Reached.mem {α : Type} {goesOn : α → Prop} {xs : List α} {x : α} (reached : Reached goesOn xs x) : x ∈ xs := by
  induction reached with
  | head => exact List.mem_cons_self
  | tail _ _ ih => exact List.mem_cons_of_mem _ ih

theorem small_of_checks : ∀ c ∈ checks fields time, c.Small := by
  simp [checks, Check.Small]

theorem search_ends_iff (enough : 5 ≤ fields.length) :
    (∃ fuel, (search fuel fields n cursor).isSome) ↔ NeverStalls fields n cursor := by
  simp only [search_isSome_iff enough, matchFields_isSome_iff, NeverStalls]
  constructor
  · rintro ⟨fuel, all⟩ time reached c come part looked
    exact (matchPart_ends_iff (small_of_checks c come.mem)).mp ⟨fuel, all time reached c come part looked⟩
  · intro moves
    let candidates := (minutes n cursor).flatMap fun time => (checks fields time).flatMap fun c =>
      (split (c.field.getD "") ',').map (c, ·)
    have small : ∀ candidate ∈ candidates, candidate.1.Small := by
      intro candidate member
      obtain ⟨time, -, member⟩ := List.mem_flatMap.mp member
      obtain ⟨c, checked, member⟩ := List.mem_flatMap.mp member
      obtain ⟨part, -, rfl⟩ := List.mem_map.mp member
      exact small_of_checks c checked
    obtain ⟨fuel, enough⟩ := exists_fuel candidates small
    refine ⟨fuel, fun time reached c come part looked => ?_⟩
    refine enough (c, part) ?_ (moves time reached c come part looked)
    obtain ⟨field, given, -, among⟩ := looked
    refine List.mem_flatMap.mpr ⟨time, reached.mem, List.mem_flatMap.mpr ⟨c, come.mem, List.mem_map.mpr ⟨part, ?_, rfl⟩⟩⟩
    rw [given]
    exact among.mem

theorem isValid_ends_iff {expression expr : String} (expanded : expandAlias expression = some expr)
    (least : 5 ≤ (splitFields expr).length) (most : (splitFields expr).length ≤ 6) :
    (∃ fuel, (isValidCronExpression fuel expression).isSome) ↔ NeverStalls (splitFields expr) HORIZON (start 0) := by
  have dated : limit 0 ≤ MAX_TIME := by decide
  have counted : ¬ ((splitFields expr).length < 5 ∨ 6 < (splitFields expr).length) := by omega
  unfold isValidCronExpression nextCronDate
  rw [expanded, ← search_ends_iff least]
  simp only [if_pos dated, if_neg counted, Option.isSome_map]

/-- The validation ends just when no part stalls in its search. -/
theorem validation_ends_iff (expression : String) : (∃ fuel, (isValidCronExpression fuel expression).isSome) ↔
    ∀ expr, expandAlias expression = some expr → 5 ≤ (splitFields expr).length → (splitFields expr).length ≤ 6 →
      NeverStalls (splitFields expr) HORIZON (start 0) := by
  constructor
  · intro ends expr expanded least most
    exact (isValid_ends_iff expanded least most).mp ends
  · intro moves
    cases expanded : expandAlias expression with
    | none => exact ⟨0, by rw [isValidCronExpression, expanded]; rfl⟩
    | some expr =>
      by_cases counted : (splitFields expr).length < 5 ∨ 6 < (splitFields expr).length
      · refine ⟨0, ?_⟩
        rw [isValidCronExpression, expanded]
        dsimp only
        rw [if_pos counted]
        rfl
      · have least : 5 ≤ (splitFields expr).length := by omega
        have most : (splitFields expr).length ≤ 6 := by omega
        exact (isValid_ends_iff expanded least most).mpr (moves expr expanded least most)

/-! ### The next date -/

/-- A whole minute. -/
abbrev Whole (time : ℤ) : Prop := time % 60000 = 0

/-- The least whole minute after an instant that matches. -/
def NextRun (fields : List String) (after time : ℤ) : Prop :=
  Whole time ∧ after < time ∧ Matches fields time ∧ ∀ t, Whole t → after < t → Matches fields t → time ≤ t

theorem mem_minutes : time ∈ minutes n cursor ↔ ∃ k < n, time = cursor + 60000 * k := by
  induction n generalizing cursor with
  | zero => simp [minutes]
  | succ n ih =>
    rw [minutes, List.mem_cons, ih]
    constructor
    · rintro (rfl | ⟨k, below, rfl⟩)
      · exact ⟨0, Nat.succ_pos n, by simp⟩
      · exact ⟨k + 1, Nat.succ_lt_succ below, by push_cast; ring⟩
    · rintro ⟨k, below, rfl⟩
      cases k with
      | zero => exact .inl (by simp)
      | succ k => exact .inr ⟨k, Nat.lt_of_succ_lt_succ below, by push_cast; ring⟩

/-- The whole minutes from one on, for so many minutes. -/
theorem mem_minutes_iff (whole : Whole cursor) :
    time ∈ minutes n cursor ↔ Whole time ∧ cursor ≤ time ∧ time < cursor + n * 60000 := by
  rw [mem_minutes]
  constructor
  · rintro ⟨k, below, rfl⟩
    omega
  · rintro ⟨other, low, high⟩
    refine ⟨((time - cursor) / 60000).toNat, ?_, ?_⟩ <;> omega

theorem start_spec (after : ℤ) : Whole (start after) ∧ after < start after ∧ ∀ t, Whole t → after < t → start after ≤ t := by
  unfold start
  refine ⟨by omega, by omega, fun t whole later => by omega⟩

/-- No minute before the one that the search comes to matches. -/
theorem not_matches_of_reached (reached : Reached (fun t => ¬ Matches fields t) (minutes n cursor) time) {t : ℤ}
    (member : t ∈ minutes n cursor) (before : t < time) : ¬ Matches fields t := by
  induction n generalizing cursor with
  | zero => nomatch reached
  | succ n ih =>
    rw [minutes] at reached member
    cases reached with
    | head =>
      rcases List.mem_cons.mp member with rfl | later
      · exact absurd before (lt_irrefl _)
      · obtain ⟨k, -, rfl⟩ := mem_minutes.mp later
        omega
    | tail goes reached =>
      rcases List.mem_cons.mp member with rfl | later
      · exact goes
      · exact ih reached later

theorem exists_reached (some : ∃ t ∈ minutes n cursor, Matches fields t) :
    ∃ time, Reached (fun t => ¬ Matches fields t) (minutes n cursor) time ∧ Matches fields time := by
  induction n generalizing cursor with
  | zero =>
    obtain ⟨t, member, -⟩ := some
    cases member
  | succ n ih =>
    by_cases now : Matches fields cursor
    · exact ⟨cursor, .head, now⟩
    · obtain ⟨t, member, holds⟩ := some
      rcases List.mem_cons.mp member with rfl | later
      · exact absurd holds now
      · obtain ⟨time, reached, holds⟩ := ih ⟨t, later, holds⟩
        exact ⟨time, .tail now reached, holds⟩

/-- Within the horizon, what the search comes to is the next run. -/
theorem nextRun_iff (within : ∃ t ∈ minutes n (start after), Matches fields t) :
    NextRun fields after time ↔
      Reached (fun t => ¬ Matches fields t) (minutes n (start after)) time ∧ Matches fields time := by
  obtain ⟨whole, later, first⟩ := start_spec after
  have least {time : ℤ} (reached : Reached (fun t => ¬ Matches fields t) (minutes n (start after)) time)
      (holds : Matches fields time) : NextRun fields after time := by
    obtain ⟨aligned, low, high⟩ := (mem_minutes_iff whole).mp reached.mem
    refine ⟨aligned, by omega, holds, fun t alignedT laterT holdsT => ?_⟩
    by_contra before
    have from_start := first t alignedT laterT
    exact not_matches_of_reached reached ((mem_minutes_iff whole).mpr ⟨alignedT, from_start, by omega⟩) (by omega) holdsT
  constructor
  · intro next
    obtain ⟨found, reached, holds⟩ := exists_reached within
    have other := least reached holds
    obtain ⟨aligned, later, holdsNext, earliest⟩ := next
    have same : time = found :=
      le_antisymm (earliest found other.1 other.2.1 holds) (other.2.2.2 time aligned later holdsNext)
    exact same ▸ ⟨reached, holds⟩
  · exact fun both => least both.1 both.2

theorem length_of_matches (holds : Matches fields time) : 5 ≤ fields.length := by
  by_contra short
  have missing : (⟨fields[4]?, ((time / 86400000 + 4) % 7).toNat, 0, 6⟩ : Check) ∈ checks fields time := by
    rw [checks, if_neg (by omega)]
    simp
  obtain ⟨field, given, -⟩ := holds _ missing
  rw [List.getElem?_eq_none (by omega)] at given
  cases given

/-- `nextCronDate` returns the least whole minute after an instant that matches. -/
def ReturnsNext (expression : String) (after : ℤ) : Prop := ∃ fuel expr time, expandAlias expression = some expr ∧
  nextCronDate fuel expression after = some (.ok time) ∧ NextRun (splitFields expr) after time

theorem next_cron_date_iff (expression : String) (after : ℤ) : ReturnsNext expression after ↔
    ∃ expr, expandAlias expression = some expr ∧ 5 ≤ (splitFields expr).length ∧ limit after ≤ MAX_TIME ∧
      (∃ time, Whole time ∧ after < time ∧ time < limit after ∧ Matches (splitFields expr) time) ∧
      NeverStalls (splitFields expr) HORIZON (start after) := by
  obtain ⟨whole, later, first⟩ := start_spec after
  constructor
  · rintro ⟨fuel, expr, time, expanded, read, next⟩
    have enough := length_of_matches next.2.2.1
    rw [nextCronDate, expanded] at read
    dsimp only at read
    split at read
    · rename_i dated
      obtain ⟨reached, holds⟩ := (search_eq enough read time).mp rfl
      obtain ⟨aligned, low, high⟩ := (mem_minutes_iff whole).mp reached.mem
      refine ⟨expr, expanded, enough, dated, ⟨time, aligned, by omega, high, holds⟩, ?_⟩
      exact (search_ends_iff enough).mp ⟨fuel, by rw [read]; rfl⟩
    · cases read
  · rintro ⟨expr, expanded, enough, dated, ⟨time, aligned, after_time, high, holds⟩, moves⟩
    have within : ∃ t ∈ minutes HORIZON (start after), Matches (splitFields expr) t :=
      ⟨time, (mem_minutes_iff whole).mpr ⟨aligned, first time aligned after_time, high⟩, holds⟩
    obtain ⟨fuel, read⟩ := (search_ends_iff enough).mpr moves
    obtain ⟨result, read⟩ := Option.isSome_iff_exists.mp read
    obtain ⟨found, come⟩ := exists_reached within
    have returned := (search_eq enough read found).mpr come
    refine ⟨fuel, expr, found, expanded, ?_, (nextRun_iff within).mpr come⟩
    rw [nextCronDate, expanded]
    dsimp only
    rw [if_pos dated, read, returned]

/-! ### A step of zero, and a leap day -/

def zeroStep : String := "* * * * */0"

def zeroSunday : Check := ⟨some "*/0", 4, 0, 6⟩

theorem parseInt_of_digits {text : String} {x : ℕ} (some_digit : text.toList ≠ []) (all : text.toList.all Char.isDigit = true)
    (read : JavaScript.value text.toList = x) (small : x < 2 ^ 53) : parseInt text = .finite x := by
  have solid : ∀ c ∈ text.toList, isWhitespace c = false := fun c member =>
    isWhitespace_of_isDigit (List.all_eq_true.mp all c member)
  have whole : text.toList.takeWhile Char.isDigit = text.toList :=
    List.takeWhile_eq_self_iff.mpr (List.all_eq_true.mp all)
  rw [parseInt, dropWhile_whitespace solid, readSign_digits all]
  dsimp only
  rw [whole, if_neg (by simpa using some_digit), read, Int.cast_one, one_mul, roundRat_natCast small]

theorem eq_of_hits (hits : Hits stop step value v) (still : v.add step = v) : value = v := by
  induction hits with
  | here _ => rfl
  | next _ _ ih => exact (ih (by rw [still, still])).trans still

theorem zeroSunday_stalls : PartStalls zeroSunday "*/0" := by
  have read : parseInt "0" = .finite (0 : ℕ) := parseInt_of_digits (by decide) (by decide) (by decide) (by decide)
  have pieces : piece "*/0" '/' 0 = "*" ∧ piece "*/0" '/' 1 = "0" := by decide
  have steps : zeroSunday.steps "*/0" = ⟨.finite 0, .finite 6, .finite 0⟩ := by
    rw [Check.steps, pieces.1, pieces.2, read, Nat.cast_zero]
    rfl
  have still : (Number.finite 0).add (.finite 0) = .finite 0 := by rw [Number.add, add_zero, roundRat_zero]
  refine ⟨by decide, fun holds => ?_, ?_⟩
  · rw [PartMatches, if_pos (by decide), steps] at holds
    exact absurd (eq_of_hits holds still) (by decide)
  · rw [steps]
    have proper : (Number.finite 0).add (.finite 0) ≠ .nan := by
      rw [still]
      exact Number.noConfusion
    exact ⟨by decide, proper, .inl (by decide)⟩

theorem reached_first {goesOn : ℤ → Prop} (cursor : ℤ) : Reached goesOn (minutes HORIZON cursor) cursor := by
  have some : HORIZON = 2102399 + 1 := rfl
  rw [some, minutes]
  exact .head

/-- The first minute of 1970 that is searched is on a Thursday, and Sunday and a step of zero never come to it. -/
theorem validation_never_ends : ¬ ∃ fuel, (isValidCronExpression fuel zeroStep).isSome := by
  rintro ⟨fuel, read⟩
  have expanded : expandAlias zeroStep = some zeroStep := by decide
  have fields : splitFields zeroStep = ["*", "*", "*", "*", "*/0"] := by decide
  have moves := (isValid_ends_iff expanded (by decide) (by decide)).mp ⟨fuel, read⟩
  rw [fields] at moves
  have checked : checks ["*", "*", "*", "*", "*/0"] (start 0) =
      [⟨some "*", 1, 1, 12⟩, ⟨some "*", 1, 1, 31⟩, zeroSunday, ⟨some "*", 0, 0, 23⟩, ⟨some "*", 1, 0, 59⟩] := by
    decide
  have every (value min max : ℕ) : FieldMatches ⟨some "*", value, min, max⟩ := ⟨"*", rfl, .inl rfl⟩
  have parts : split "*/0" ',' = ["*/0"] := by decide
  refine moves (start 0) (reached_first _) zeroSunday ?_ "*/0" ?_ zeroSunday_stalls
  · rw [checked]
    exact .tail (every _ _ _) (.tail (every _ _ _) .head)
  · refine ⟨"*/0", rfl, by decide, ?_⟩
    rw [parts]
    exact .head

def leapDay : String := "0 0 29 2 *"

def leapFields : List String := ["0", "0", "29", "2", "*"]

theorem fieldMatches_number (text : String) (x : ℕ) (named : text ≠ "*") (one : split text ',' = [text])
    (plain : '/' ∉ text.toList ∧ '-' ∉ text.toList) (read : parseInt text = .finite x) (value min max : ℕ) :
    FieldMatches ⟨some text, value, min, max⟩ ↔ value = x := by
  have part : PartMatches ⟨some text, value, min, max⟩ text ↔ value = x := by
    rw [PartMatches, if_neg plain.1, if_neg plain.2, read, Number.finite.injEq, Nat.cast_inj]
    exact eq_comm
  rw [← part]
  constructor
  · rintro ⟨field, same, every | ⟨other, member, holds⟩⟩
    · exact absurd (Option.some.inj same ▸ every) named
    · rw [← Option.some.inj same, one, List.mem_singleton] at member
      exact member ▸ holds
  · exact fun holds => ⟨text, rfl, .inr ⟨text, one ▸ List.mem_singleton_self text, holds⟩⟩

theorem matches_leapDay : Matches leapFields time ↔
    (civil time).2 = (2, 29) ∧ time / 3600000 % 24 = 0 ∧ time / 60000 % 60 = 0 := by
  have zero := fieldMatches_number "0" 0 (by decide) (by decide) (by decide)
    (parseInt_of_digits (by decide) (by decide) (by decide) (by decide))
  have two := fieldMatches_number "2" 2 (by decide) (by decide) (by decide)
    (parseInt_of_digits (by decide) (by decide) (by decide) (by decide))
  have last := fieldMatches_number "29" 29 (by decide) (by decide) (by decide)
    (parseInt_of_digits (by decide) (by decide) (by decide) (by decide))
  have every (value min max : ℕ) : FieldMatches ⟨some "*", value, min, max⟩ := ⟨"*", rfl, .inl rfl⟩
  have listed : checks leapFields time = [⟨some "2", (civil time).2.1, 1, 12⟩, ⟨some "29", (civil time).2.2, 1, 31⟩,
      ⟨some "*", ((time / 86400000 + 4) % 7).toNat, 0, 6⟩, ⟨some "0", (time / 3600000 % 24).toNat, 0, 23⟩,
      ⟨some "0", (time / 60000 % 60).toNat, 0, 59⟩] := rfl
  rw [Matches, listed]
  have hour : (time / 3600000 % 24).toNat = 0 ↔ time / 3600000 % 24 = 0 := by omega
  have minute : (time / 60000 % 60).toNat = 0 ↔ time / 60000 % 60 = 0 := by omega
  simp [zero, two, last, every, hour, minute, Prod.ext_iff, and_assoc]

theorem leapDay_never_stalls (n : ℕ) (cursor : ℤ) : NeverStalls leapFields n cursor := by
  rintro time - c come part ⟨field, given, -, among⟩ ⟨slash, -⟩
  have listed : field ∈ leapFields := by
    have member := come.mem
    simp only [checks, List.mem_cons, List.not_mem_nil, or_false] at member
    rcases member with rfl | rfl | rfl | rfl | rfl <;> exact List.mem_of_getElem? given
  have plain : ∀ field ∈ leapFields, ∀ part ∈ split field ',', '/' ∉ part.toList := by decide
  exact plain field listed part among.mem slash

/-- The first instants of 29 February of 1972, 2024 and 2028. -/
def leap1972 : ℤ := 68169600000

def leap2024 : ℤ := 1709164800000

def leap2028 : ℤ := 1835395200000

theorem leapDay_accepted : ∃ fuel, isValidCronExpression fuel leapDay = some true := by
  have expanded : expandAlias leapDay = some leapDay := by decide
  have fields : splitFields leapDay = leapFields := by decide
  have enough : 5 ≤ leapFields.length := by decide
  have within : ∃ t ∈ minutes HORIZON (start 0), Matches leapFields t :=
    ⟨leap1972, (mem_minutes_iff (start_spec 0).1).mpr (by decide), matches_leapDay.mpr (by decide)⟩
  obtain ⟨time, come⟩ := exists_reached within
  obtain ⟨fuel, ends⟩ := (search_ends_iff enough).mpr (leapDay_never_stalls HORIZON (start 0))
  obtain ⟨result, read⟩ := Option.isSome_iff_exists.mp ends
  refine ⟨fuel, ?_⟩
  rw [isValidCronExpression, nextCronDate, expanded]
  dsimp only
  rw [fields, if_neg (by decide), if_pos (by decide), read, (search_eq enough read time).mpr come]
  rfl

/-- The last two are 1461 days apart, and none of the days between is a 29 February. -/
theorem no_leap_between (whole : Whole time) (low : leap2024 < time) (high : time < leap2028) : ¬ Matches leapFields time := by
  intro holds
  obtain ⟨leap, hour, minute⟩ := matches_leapDay.mp holds
  rw [leap2024] at low
  rw [leap2028] at high
  obtain ⟨d, day⟩ : ∃ d : ℕ, time = (19783 + d) * 86400000 := ⟨(time / 86400000 - 19783).toNat, by omega⟩
  have below : d < 1460 := by omega
  have none : ∀ d < 1460, (civil ((19783 + (d : ℕ)) * 86400000)).2 ≠ (2, 29) := by decide +kernel
  exact none d below (day ▸ leap)

/-- The expression is accepted, its next run is four years later, and no date is returned. -/
theorem leap_day_missed : (∃ fuel, isValidCronExpression fuel leapDay = some true) ∧
    NextRun leapFields leap2024 leap2028 ∧ ¬ ReturnsNext leapDay leap2024 := by
  have expanded : expandAlias leapDay = some leapDay := by decide
  have fields : splitFields leapDay = leapFields := by decide
  have next : Matches leapFields leap2028 := matches_leapDay.mpr (by decide)
  refine ⟨leapDay_accepted, ⟨by decide, by decide, next, fun t whole later holds => ?_⟩, ?_⟩
  · by_contra before
    exact no_leap_between whole later (by omega) holds
  · rintro ⟨fuel, expr, time, other, read, next⟩
    rw [nextCronDate, expanded] at read
    dsimp only at read
    rw [fields, if_pos (by decide)] at read
    obtain ⟨reached, holds⟩ := (search_eq (by decide) read time).mp rfl
    obtain ⟨whole, low, high⟩ := (mem_minutes_iff (start_spec leap2024).1).mp reached.mem
    have last : start leap2024 + HORIZON * 60000 ≤ leap2028 := by decide
    exact no_leap_between whole next.2.1 (by omega) holds

end Octraban.CronEngine
