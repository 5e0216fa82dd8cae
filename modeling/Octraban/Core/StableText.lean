import Octraban.Core.Sorting
import Mathlib.Data.Rat.Defs

/-! JSON texts whose objects are sorted by their keys: a text ends where its value does, and what
is read of a value is in its text. -/
namespace StableText

/-- A field without a value is undefined. -/
inductive Json where
  | null
  | boolean (value : Bool)
  | number (x : ℚ)
  | text (content : String)
  | array (items : List Json)
  | object (fields : List (String × Option Json))

def hexChar (n : Nat) : Char := if n < 10 then Char.ofNat (48 + n) else Char.ofNat (87 + n)

/-- A character inside a string of JSON. -/
def escape (c : Char) : List Char :=
  if c = '"' then ['\\', '"']
  else if c = '\\' then ['\\', '\\']
  else if c = '\x08' then ['\\', 'b']
  else if c = '\t' then ['\\', 't']
  else if c = '\n' then ['\\', 'n']
  else if c = '\x0c' then ['\\', 'f']
  else if c = '\r' then ['\\', 'r']
  else if c.toNat < 32 then ['\\', 'u', '0', '0', hexChar (c.toNat / 16), hexChar (c.toNat % 16)]
  else [c]

/-- `JSON.stringify(text)` -/
def quote (content : String) : List Char := '"' :: content.toList.flatMap escape ++ ['"']

def commas : List (List Char) → List Char
  | [] => []
  | [t] => t
  | t :: u :: rest => t ++ ',' :: commas (u :: rest)

/-- How numbers are written: no two alike, with a digit or a sign first and no mark inside. -/
structure Numerals where
  numeral : ℚ → List Char
  injective : ∀ x y, numeral x = numeral y → x = y
  starts : ∀ x, ∃ c rest, numeral x = c :: rest ∧ (c.isDigit = true ∨ c = '-')
  bare : ∀ x, ∀ c ∈ numeral x, c ≠ ',' ∧ c ≠ ']' ∧ c ≠ '\x7d'

variable (numerals : Numerals) (before : String → String → Bool)

/-- A field as it stands in an object. -/
def member (field : String × List Char) : List Char := quote field.1 ++ ':' :: field.2

def sorted {α : Type} (fields : List (String × α)) : List (String × α) := fields.mergeSort fun a b => before a.1 b.1

def arrayText (items : List (List Char)) : List Char := '[' :: (commas items ++ [']'])

def objectText (fields : List (String × List Char)) : List Char :=
  '\x7b' :: (commas ((sorted before fields).map member) ++ ['\x7d'])

def undefinedText : List Char := ['u', 'n', 'd', 'e', 'f', 'i', 'n', 'e', 'd']

mutual

/-- `stableStringify(value)` -/
def stableText : Json → List Char
  | .null => ['n', 'u', 'l', 'l']
  | .boolean value => if value then ['t', 'r', 'u', 'e'] else ['f', 'a', 'l', 's', 'e']
  | .number x => numerals.numeral x
  | .text content => quote content
  | .array items => arrayText (texts items)
  | .object fields => objectText before (fieldTexts fields)

def texts : List Json → List (List Char)
  | [] => []
  | item :: rest => stableText item :: texts rest

def fieldTexts : List (String × Option Json) → List (String × List Char)
  | [] => []
  | (key, none) :: rest => (key, undefinedText) :: fieldTexts rest
  | (key, some item) :: rest => (key, stableText item) :: fieldTexts rest

end

/-- The text of what a field holds. -/
def valueText : Option Json → List Char
  | none => undefinedText
  | some value => stableText numerals before value

/-! ### Strings -/

def special : List Char := '"' :: '\\' :: (List.range 32).map Char.ofNat

theorem escape_of_plain {c : Char} (plain : c ∉ special) : escape c = [c] := by
  have other (d : Char) (member : d ∈ special) : c ≠ d := fun same => plain (same ▸ member)
  have large : ¬ c.toNat < 32 := by
    intro small
    refine plain (List.mem_cons_of_mem _ (List.mem_cons_of_mem _ (List.mem_map.mpr ⟨c.toNat, List.mem_range.mpr small, ?_⟩)))
    exact Char.ofNat_toNat c
  rw [escape, if_neg (other _ (by decide)), if_neg (other _ (by decide)), if_neg (other _ (by decide)),
    if_neg (other _ (by decide)), if_neg (other _ (by decide)), if_neg (other _ (by decide)),
    if_neg (other _ (by decide)), if_neg large]

theorem escape_special : ∀ c ∈ special, ∃ code, escape c = '\\' :: code := by
  have heads : special.all fun c => (escape c).head? = some '\\' := by decide
  intro c member
  obtain ⟨rest, same⟩ := List.head?_eq_some_iff.mp (of_decide_eq_true (List.all_eq_true.mp heads c member))
  exact ⟨rest, same⟩

theorem escape_apart : ∀ c ∈ special, ∀ d ∈ special, escape c <+: escape d → c = d := by
  have apart : special.all fun c => special.all fun d => escape c <+: escape d → c = d := by decide
  intro c left d right
  exact of_decide_eq_true (List.all_eq_true.mp (List.all_eq_true.mp apart c left) d right)

/-- No escape begins another one. -/
theorem escape_inj {c d : Char} {x y : List Char} (same : escape c ++ x = escape d ++ y) : c = d ∧ x = y := by
  have equal : c = d := by
    by_cases left : c ∈ special
    · by_cases right : d ∈ special
      · rcases List.append_eq_append_iff.mp same with ⟨more, longer, -⟩ | ⟨more, longer, -⟩
        · exact escape_apart c left d right ⟨more, longer.symm⟩
        · exact (escape_apart d right c left ⟨more, longer.symm⟩).symm
      · obtain ⟨code, starts⟩ := escape_special c left
        rw [starts, escape_of_plain right] at same
        have backslash : '\\' = d := (List.cons.inj same).1
        exact absurd (backslash ▸ by decide) right
    · rw [escape_of_plain left] at same
      by_cases right : d ∈ special
      · obtain ⟨code, starts⟩ := escape_special d right
        rw [starts] at same
        have backslash : c = '\\' := (List.cons.inj same).1
        exact absurd (backslash ▸ by decide) left
      · rw [escape_of_plain right] at same
        exact (List.cons.inj same).1
  subst equal
  exact ⟨rfl, List.append_cancel_left same⟩

theorem escape_ne_quote (c : Char) (x y : List Char) : escape c ++ x ≠ '"' :: y := by
  intro same
  by_cases listed : c ∈ special
  · obtain ⟨code, starts⟩ := escape_special c listed
    rw [starts] at same
    exact absurd (List.cons.inj same).1 (by decide)
  · rw [escape_of_plain listed] at same
    have mark : c = '"' := (List.cons.inj same).1
    exact listed (mark ▸ by decide)

theorem body_inj {s t r r' : List Char} (same : s.flatMap escape ++ '"' :: r = t.flatMap escape ++ '"' :: r') :
    s = t ∧ r = r' := by
  induction s generalizing t with
  | nil =>
    cases t with
    | nil => exact ⟨rfl, (List.cons.inj same).2⟩
    | cons d t =>
      rw [List.flatMap_cons, List.append_assoc] at same
      exact absurd same.symm (escape_ne_quote d _ _)
  | cons c s ih =>
    rw [List.flatMap_cons, List.append_assoc] at same
    cases t with
    | nil => exact absurd same (escape_ne_quote c _ _)
    | cons d t =>
      rw [List.flatMap_cons, List.append_assoc] at same
      obtain ⟨rfl, rest⟩ := escape_inj same
      obtain ⟨rfl, ends⟩ := ih rest
      exact ⟨rfl, ends⟩

/-- A string ends at its closing quote. -/
theorem quote_inj {s t : String} {r r' : List Char} (same : quote s ++ r = quote t ++ r') : s = t ∧ r = r' := by
  rw [quote, quote, List.cons_append, List.cons_append, List.cons_append, List.cons_append, List.append_assoc,
    List.append_assoc] at same
  obtain ⟨chars, ends⟩ := body_inj (List.cons.inj same).2
  exact ⟨String.toList_inj.mp chars, ends⟩

/-! ### Where a text ends -/

/-- What may follow a value: nothing, or a mark that closes or separates. -/
def Stops (rest : List Char) : Prop := ∀ c ∈ rest.head?, c = ',' ∨ c = ']' ∨ c = '\x7d'

/-- No text of the form begins this one but itself. -/
def Delimited (form : List Char → Prop) (t : List Char) : Prop :=
  ∀ u, form u → ∀ r r', Stops r → Stops r' → t ++ r = u ++ r' → t = u ∧ r = r'

/-- A text that begins with no closing mark. -/
def Opens (t : List Char) : Prop := ∃ c rest, t = c :: rest ∧ c ≠ ']' ∧ c ≠ '\x7d'

theorem stops_cons {c : Char} {rest : List Char} (mark : c = ',' ∨ c = ']' ∨ c = '\x7d') : Stops (c :: rest) := by
  intro d head
  cases head
  exact mark

variable {form : List Char → Prop} {ts us : List (List Char)} {closing : Char} {r r' : List Char}

theorem opens_commas {t : List Char} (opens : Opens t) (rest : List (List Char)) (r : List Char) :
    Opens (commas (t :: rest) ++ r) := by
  obtain ⟨c, more, rfl, mark⟩ := opens
  cases rest with
  | nil => exact ⟨c, more ++ r, rfl, mark⟩
  | cons u rest => exact ⟨c, _, rfl, mark⟩

/-- What follows the first of several texts up to the closing mark. -/
def after (closing : Char) (r : List Char) : List (List Char) → List Char
  | [] => closing :: r
  | u :: rest => ',' :: (commas (u :: rest) ++ closing :: r)

theorem commas_cons (t : List Char) (rest : List (List Char)) :
    commas (t :: rest) ++ closing :: r = t ++ after closing r rest := by
  cases rest with
  | nil => rfl
  | cons u rest => rw [commas, List.append_assoc, after, List.cons_append]

theorem stops_after (mark : closing = ']' ∨ closing = '\x7d') (rest : List (List Char)) : Stops (after closing r rest) := by
  cases rest with
  | nil => exact stops_cons (.inr mark)
  | cons u rest => exact stops_cons (.inl rfl)

/-- A row of delimited texts is read back element by element. -/
theorem commas_inj (mark : closing = ']' ∨ closing = '\x7d') (left : ∀ t ∈ ts, Delimited form t ∧ Opens t)
    (right : ∀ u ∈ us, form u ∧ Opens u) (same : commas ts ++ closing :: r = commas us ++ closing :: r') :
    ts = us ∧ r = r' := by
  have closed {t : List Char} (opens : Opens t) {y : List Char} (clash : t = closing :: y) : False := by
    obtain ⟨c, more, rfl, bracket, brace⟩ := opens
    obtain ⟨rfl, -⟩ := List.cons.inj clash
    exact mark.elim bracket brace
  induction ts generalizing us with
  | nil =>
    cases us with
    | nil => exact ⟨rfl, (List.cons.inj same).2⟩
    | cons u us =>
      exact (closed (opens_commas (right u List.mem_cons_self).2 us _) same.symm).elim
  | cons t ts ih =>
    obtain ⟨delimited, opens⟩ := left t List.mem_cons_self
    cases us with
    | nil => exact (closed (opens_commas opens ts _) same).elim
    | cons u us =>
      rw [commas_cons, commas_cons] at same
      obtain ⟨rfl, rest⟩ := delimited u (right u List.mem_cons_self).1 _ _ (stops_after mark ts) (stops_after mark us) same
      cases ts with
      | nil =>
        cases us with
        | nil => exact ⟨rfl, (List.cons.inj rest).2⟩
        | cons v us =>
          have comma : closing = ',' := (List.cons.inj rest).1
          rw [comma] at mark
          exact absurd mark (by decide)
      | cons v ts =>
        cases us with
        | nil =>
          have comma : ',' = closing := (List.cons.inj rest).1
          rw [← comma] at mark
          exact absurd mark (by decide)
        | cons w us =>
          obtain ⟨others, ends⟩ := @ih (w :: us) (fun t member => left t (List.mem_cons_of_mem _ member))
            (fun u member => right u (List.mem_cons_of_mem _ member)) (List.cons.inj rest).2
          rw [others]
          exact ⟨rfl, ends⟩

/-! ### The texts of values -/

inductive Kind where
  | undefined | null | boolean | number | text | array | object

def kind : Option Json → Kind
  | none => .undefined
  | some .null => .null
  | some (.boolean _) => .boolean
  | some (.number _) => .number
  | some (.text _) => .text
  | some (.array _) => .array
  | some (.object _) => .object

def kindOf (c : Char) : Kind :=
  if c = 'u' then .undefined
  else if c = 'n' then .null
  else if c = 't' ∨ c = 'f' then .boolean
  else if c = '"' then .text
  else if c = '[' then .array
  else if c = '\x7b' then .object
  else .number

variable {numerals} {before} {v w : Option Json}

/-- The first character tells the kind of a value. -/
theorem valueText_head (numerals : Numerals) (before : String → String → Bool) (v : Option Json) :
    ∃ c rest, valueText numerals before v = c :: rest ∧ kindOf c = kind v ∧ c ≠ ']' ∧ c ≠ '\x7d' := by
  cases v with
  | none => exact ⟨'u', _, rfl, rfl, by decide, by decide⟩
  | some v =>
    rw [valueText]
    cases v with
    | null => exact ⟨'n', _, rfl, rfl, by decide, by decide⟩
    | boolean value =>
      cases value with
      | true => exact ⟨'t', _, rfl, rfl, by decide, by decide⟩
      | false => exact ⟨'f', _, rfl, rfl, by decide, by decide⟩
    | text content => exact ⟨'"', _, rfl, rfl, by decide, by decide⟩
    | array items =>
      rw [stableText]
      exact ⟨'[', _, rfl, rfl, by decide, by decide⟩
    | object fields =>
      rw [stableText]
      exact ⟨'\x7b', _, rfl, rfl, by decide, by decide⟩
    | number x =>
      obtain ⟨c, rest, starts, first⟩ := numerals.starts x
      have other (d : Char) (plain : ¬ (d.isDigit = true ∨ d = '-')) : c ≠ d := fun same => plain (same ▸ first)
      refine ⟨c, rest, starts, ?_, other _ (by decide), other _ (by decide)⟩
      rw [kindOf, if_neg (other _ (by decide)), if_neg (other _ (by decide)),
        if_neg (not_or.mpr ⟨other _ (by decide), other _ (by decide)⟩), if_neg (other _ (by decide)),
        if_neg (other _ (by decide)), if_neg (other _ (by decide))]
      rfl

theorem kind_eq (v w : Option Json) (same : valueText numerals before v ++ r = valueText numerals before w ++ r') : kind v = kind w := by
  obtain ⟨c, rest, left, first, -⟩ := valueText_head numerals before v
  obtain ⟨d, rest', right, first', -⟩ := valueText_head numerals before w
  rw [left, right] at same
  rw [← first, ← first', (List.cons.inj same).1]

theorem opens_valueText (v : Option Json) : Opens (valueText numerals before v) := by
  obtain ⟨c, rest, text, -, marks⟩ := valueText_head numerals before v
  exact ⟨c, rest, text, marks⟩

/-- Texts without marks end at the first one. -/
theorem bare_inj {t u : List Char} (left : ∀ c ∈ t, c ≠ ',' ∧ c ≠ ']' ∧ c ≠ '\x7d')
    (right : ∀ c ∈ u, c ≠ ',' ∧ c ≠ ']' ∧ c ≠ '\x7d') (stops : Stops r) (stops' : Stops r') (same : t ++ r = u ++ r') :
    t = u ∧ r = r' := by
  have clash {c : Char} {rest : List Char} (stops : Stops (c :: rest)) (bare : c ≠ ',' ∧ c ≠ ']' ∧ c ≠ '\x7d') : False := by
    rcases stops c rfl with comma | bracket | brace
    · exact bare.1 comma
    · exact bare.2.1 bracket
    · exact bare.2.2 brace
  induction t generalizing u with
  | nil =>
    cases u with
    | nil => exact ⟨rfl, same⟩
    | cons d u =>
      rw [List.nil_append, List.cons_append] at same
      exact (clash (same ▸ stops) (right d List.mem_cons_self)).elim
  | cons c t ih =>
    cases u with
    | nil =>
      rw [List.nil_append, List.cons_append] at same
      exact (clash (same ▸ stops') (left c List.mem_cons_self)).elim
    | cons d u =>
      obtain ⟨rfl, rest⟩ := List.cons.inj same
      obtain ⟨rfl, ends⟩ := ih (fun c member => left c (List.mem_cons_of_mem _ member))
        (fun c member => right c (List.mem_cons_of_mem _ member)) rest
      exact ⟨rfl, ends⟩

variable (numerals before) in
def IsText (t : List Char) : Prop := ∃ v, valueText numerals before v = t

variable (numerals before) in
def IsMember (t : List Char) : Prop := ∃ key v, member (key, valueText numerals before v) = t

theorem opens_member (field : String × List Char) : Opens (member field) := ⟨'"', _, rfl, by decide, by decide⟩

theorem delimited_member {field : String × List Char} (delimited : Delimited (IsText numerals before) field.2) :
    Delimited (IsMember numerals before) (member field) := by
  rintro _ ⟨key, v, rfl⟩ r r' stops stops' same
  rw [member, member, List.append_assoc, List.append_assoc] at same
  obtain ⟨names, rest⟩ := quote_inj same
  obtain ⟨values, ends⟩ := delimited _ ⟨v, rfl⟩ r r' stops stops' (List.cons.inj rest).2
  rw [member, member, names, values]
  exact ⟨rfl, ends⟩

theorem texts_eq_map (items : List Json) : texts numerals before items = items.map (stableText numerals before) := by
  induction items with
  | nil => rfl
  | cons item rest ih => rw [texts, ih, List.map_cons]

theorem fieldTexts_eq_map (fields : List (String × Option Json)) :
    fieldTexts numerals before fields = fields.map fun field => (field.1, valueText numerals before field.2) := by
  induction fields with
  | nil => rfl
  | cons field rest ih =>
    obtain ⟨key, value⟩ := field
    cases value with
    | none => rw [fieldTexts, ih, List.map_cons, valueText]
    | some item => rw [fieldTexts, ih, List.map_cons, valueText]

theorem isText_of_mem_texts {items : List Json} {t : List Char} (listed : t ∈ texts numerals before items) :
    IsText numerals before t := by
  rw [texts_eq_map] at listed
  obtain ⟨item, -, rfl⟩ := List.mem_map.mp listed
  exact ⟨some item, rfl⟩

theorem isMember_of_mem_sorted {fields : List (String × Option Json)} {t : List Char}
    (listed : t ∈ (sorted before (fieldTexts numerals before fields)).map member) : IsMember numerals before t := by
  obtain ⟨field, inside, rfl⟩ := List.mem_map.mp listed
  rw [sorted, List.mem_mergeSort, fieldTexts_eq_map] at inside
  obtain ⟨⟨key, value⟩, -, rfl⟩ := List.mem_map.mp inside
  exact ⟨key, value, rfl⟩

theorem opens_of_isText {t : List Char} (text : IsText numerals before t) : Opens t := by
  obtain ⟨v, rfl⟩ := text
  exact opens_valueText v

theorem opens_of_isMember {t : List Char} (text : IsMember numerals before t) : Opens t := by
  obtain ⟨key, v, rfl⟩ := text
  exact opens_member _

theorem delimited_undefinedText : Delimited (IsText numerals before) undefinedText := by
  rintro _ ⟨w, rfl⟩ r r' - - same
  cases w with
  | none => exact ⟨rfl, List.append_cancel_left same⟩
  | some w =>
    have kinds := kind_eq none (some w) same
    cases w <;> cases kinds

mutual

/-- The text of a value ends where the value does. -/
theorem delimited_stableText : ∀ v, Delimited (IsText numerals before) (stableText numerals before v)
  | .null => by
    rintro _ ⟨w, rfl⟩ r r' - - same
    have kinds := kind_eq (some .null) w same
    rcases w with _ | (_ | _ | _ | _ | _ | _) <;> cases kinds
    exact ⟨rfl, List.append_cancel_left same⟩
  | .boolean value => by
    rintro _ ⟨w, rfl⟩ r r' - - same
    have kinds := kind_eq (some (.boolean value)) w same
    rcases w with _ | (_ | other | _ | _ | _ | _) <;> cases kinds
    rw [valueText] at same ⊢
    have equal : value = other := by
      cases value <;> cases other <;> first | rfl | exact absurd (List.cons.inj same).1 (by decide)
    subst equal
    exact ⟨rfl, List.append_cancel_left same⟩
  | .number x => by
    rintro _ ⟨w, rfl⟩ r r' stops stops' same
    have kinds := kind_eq (some (.number x)) w same
    rcases w with _ | (_ | _ | y | _ | _ | _) <;> cases kinds
    rw [valueText, stableText, stableText] at same ⊢
    exact bare_inj (numerals.bare x) (numerals.bare y) stops stops' same
  | .text content => by
    rintro _ ⟨w, rfl⟩ r r' - - same
    have kinds := kind_eq (some (.text content)) w same
    rcases w with _ | (_ | _ | _ | other | _ | _) <;> cases kinds
    rw [valueText, stableText, stableText] at same ⊢
    obtain ⟨rfl, ends⟩ := quote_inj same
    exact ⟨rfl, ends⟩
  | .array items => by
    rintro _ ⟨w, rfl⟩ r r' - - same
    have kinds := kind_eq (some (.array items)) w same
    rcases w with _ | (_ | _ | _ | _ | others | _) <;> cases kinds
    rw [valueText, stableText, stableText, arrayText, arrayText, List.cons_append, List.cons_append, List.append_assoc,
      List.append_assoc] at same
    obtain ⟨equal, ends⟩ := commas_inj (.inl rfl) (fun t listed => delimited_texts items t listed)
      (fun u listed => ⟨isText_of_mem_texts listed, opens_of_isText (isText_of_mem_texts listed)⟩) (List.cons.inj same).2
    rw [valueText, stableText, stableText, equal]
    exact ⟨rfl, ends⟩
  | .object fields => by
    rintro _ ⟨w, rfl⟩ r r' - - same
    have kinds := kind_eq (some (.object fields)) w same
    rcases w with _ | (_ | _ | _ | _ | _ | others) <;> cases kinds
    rw [valueText, stableText, stableText, objectText, objectText, List.cons_append, List.cons_append, List.append_assoc,
      List.append_assoc] at same
    have left : ∀ t ∈ (sorted before (fieldTexts numerals before fields)).map member,
        Delimited (IsMember numerals before) t ∧ Opens t := by
      intro t listed
      obtain ⟨field, inside, rfl⟩ := List.mem_map.mp listed
      exact ⟨delimited_member (delimited_fieldTexts fields field (List.mem_mergeSort.mp inside)), opens_member field⟩
    obtain ⟨equal, ends⟩ := commas_inj (.inr rfl) left
      (fun u listed => ⟨isMember_of_mem_sorted listed, opens_of_isMember (isMember_of_mem_sorted listed)⟩)
      (List.cons.inj same).2
    rw [valueText, stableText, stableText, objectText, objectText, equal]
    exact ⟨rfl, ends⟩

theorem delimited_texts : ∀ items, ∀ t ∈ texts numerals before items, Delimited (IsText numerals before) t ∧ Opens t
  | [] => fun _ listed => by cases listed
  | item :: rest => fun t listed => by
    rw [texts, List.mem_cons] at listed
    rcases listed with rfl | later
    · exact ⟨delimited_stableText item, opens_valueText (some item)⟩
    · exact delimited_texts rest t later

theorem delimited_fieldTexts : ∀ fields, ∀ field ∈ fieldTexts numerals before fields,
    Delimited (IsText numerals before) field.2
  | [] => fun _ listed => by cases listed
  | (key, none) :: rest => fun field listed => by
    rw [fieldTexts, List.mem_cons] at listed
    rcases listed with rfl | later
    · exact delimited_undefinedText
    · exact delimited_fieldTexts rest field later
  | (key, some item) :: rest => fun field listed => by
    rw [fieldTexts, List.mem_cons] at listed
    rcases listed with rfl | later
    · exact delimited_stableText item
    · exact delimited_fieldTexts rest field later

end

/-! ### What a text tells -/

theorem delimited_of_isText {t : List Char} (text : IsText numerals before t) : Delimited (IsText numerals before) t := by
  obtain ⟨v, rfl⟩ := text
  cases v with
  | none => exact delimited_undefinedText
  | some v => exact delimited_stableText v

theorem arrayText_inj (left : ∀ t ∈ ts, IsText numerals before t) (right : ∀ u ∈ us, IsText numerals before u)
    (same : arrayText ts = arrayText us) : ts = us := by
  rw [arrayText, arrayText] at same
  exact (commas_inj (.inl rfl) (fun t listed => ⟨delimited_of_isText (left t listed), opens_of_isText (left t listed)⟩)
    (fun u listed => ⟨right u listed, opens_of_isText (right u listed)⟩) (List.cons.inj same).2).1

theorem member_inj {a b : String × List Char} (same : member a = member b) : a = b := by
  obtain ⟨names, rest⟩ := quote_inj same
  exact Prod.ext names (List.cons.inj rest).2

theorem objectText_inj {fields others : List (String × Option Json)}
    (same : stableText numerals before (.object fields) = stableText numerals before (.object others)) :
    sorted before (fieldTexts numerals before fields) = sorted before (fieldTexts numerals before others) := by
  have left : ∀ t ∈ (sorted before (fieldTexts numerals before fields)).map member,
      Delimited (IsMember numerals before) t ∧ Opens t := by
    intro t listed
    obtain ⟨field, inside, rfl⟩ := List.mem_map.mp listed
    exact ⟨delimited_member (delimited_fieldTexts fields field (List.mem_mergeSort.mp inside)), opens_member field⟩
  rw [stableText, stableText, objectText, objectText] at same
  have members := (commas_inj (.inr rfl) left
    (fun u listed => ⟨isMember_of_mem_sorted listed, opens_of_isMember (isMember_of_mem_sorted listed)⟩)
    (List.cons.inj same).2).1
  exact List.map_injective_iff.mpr (fun _ _ => member_inj) members

/-- What is read of a value without going into arrays and objects. -/
inductive Scalar where
  | undefined
  | null
  | boolean (value : Bool)
  | number (x : ℚ)
  | text (content : String)
  | compound
  deriving DecidableEq

def scalar : Option Json → Scalar
  | none => .undefined
  | some .null => .null
  | some (.boolean value) => .boolean value
  | some (.number x) => .number x
  | some (.text content) => .text content
  | some (.array _) | some (.object _) => .compound

def items? : Option Json → Option (List Json)
  | some (.array items) => some items
  | _ => none

def lookup (key : String) (fields : List (String × Option Json)) : Option Json :=
  (fields.find? fun field => field.1 = key).bind Prod.snd

/-- `value?.key` -/
def get (key : String) : Option Json → Option Json
  | some (.object fields) => lookup key fields
  | _ => none

variable (numerals before) in
/-- What can be read off the text. -/
def Reads {α : Type} (f : Option Json → α) : Prop :=
  ∀ v w, valueText numerals before v = valueText numerals before w → f v = f w

theorem kind_eq_of_same (same : valueText numerals before v = valueText numerals before w) : kind v = kind w :=
  kind_eq v w (congrArg (· ++ []) same)

theorem reads_scalar : Reads numerals before scalar := by
  intro v w same
  have kinds := kind_eq_of_same same
  rcases v with _ | (_ | b | x | s | xs | xs) <;> rcases w with _ | (_ | c | y | t | ys | ys) <;> cases kinds
  · rfl
  · rfl
  · cases b <;> cases c <;> first | rfl | exact absurd (List.cons.inj same).1 (by decide)
  · exact congrArg Scalar.number (numerals.injective x y same)
  · have quoted : quote s ++ [] = quote t ++ [] := congrArg (· ++ []) same
    exact congrArg Scalar.text (quote_inj quoted).1
  · rfl
  · rfl

theorem map_eq_of_map_eq {A B C : Type} {f : A → B} {g : A → C} (determines : ∀ x y, f x = f y → g x = g y)
    {xs ys : List A} (same : xs.map f = ys.map f) : xs.map g = ys.map g := by
  induction xs generalizing ys with
  | nil =>
    rw [List.map_eq_nil_iff.mp same.symm]
  | cons x xs ih =>
    obtain ⟨y, rest, rfl, first, others⟩ := List.map_eq_cons_iff.mp same.symm
    rw [List.map_cons, List.map_cons, ih others.symm, determines x y first.symm]

/-- What is read of each element of an array. -/
theorem Reads.items {A : Type} {f : Option Json → A} (reads : Reads numerals before f) :
    Reads numerals before fun v => (items? v).map (List.map fun item => f (some item)) := by
  intro v w same
  have kinds := kind_eq_of_same same
  rcases v with _ | (_ | b | x | s | xs | xs) <;> rcases w with _ | (_ | c | y | t | ys | ys) <;> cases kinds
  case some.array.some.array =>
    rw [valueText, valueText, stableText, stableText] at same
    have elements : texts numerals before xs = texts numerals before ys :=
      arrayText_inj (fun _ => isText_of_mem_texts) (fun _ => isText_of_mem_texts) same
    rw [texts_eq_map, texts_eq_map] at elements
    exact congrArg some (map_eq_of_map_eq (fun x y => reads (some x) (some y)) elements)
  all_goals rfl

/-- The first field of a name stays the first in a stable sort. -/
theorem find?_sorted (trans : ∀ a b c, before a b = true → before b c = true → before a c = true)
    (total : ∀ a b, (before a b || before b a) = true) {A : Type} (key : String) (fields : List (String × A)) :
    (sorted before fields).find? (fun field => field.1 = key) = fields.find? fun field => field.1 = key := by
  rw [← List.head?_filter, ← List.head?_filter, sorted]
  refine congrArg List.head? (Sorting.filter_mergeSort (fun a b c => trans a.1 b.1 c.1) (fun a b => total a.1 b.1) ?_ fields)
  intro a b left right
  rw [of_decide_eq_true left, of_decide_eq_true right]
  exact (Bool.or_self _).symm.trans (total key key)

/-- What is read of a field. -/
theorem Reads.get (trans : ∀ a b c, before a b = true → before b c = true → before a c = true)
    (total : ∀ a b, (before a b || before b a) = true) {A : Type} {f : Option Json → A} (reads : Reads numerals before f)
    (key : String) : Reads numerals before fun v => f (StableText.get key v) := by
  intro v w same
  have kinds := kind_eq_of_same same
  rcases v with _ | (_ | b | x | s | xs | fields) <;> rcases w with _ | (_ | c | y | t | ys | others) <;> cases kinds
  case some.object.some.object =>
    have found := congrArg (List.find? fun field => field.1 = key) (objectText_inj same)
    rw [find?_sorted trans total, find?_sorted trans total, fieldTexts_eq_map, fieldTexts_eq_map, List.find?_map,
      List.find?_map] at found
    refine reads _ _ ?_
    rw [StableText.get, StableText.get, lookup, lookup]
    have names : ((fun field : String × List Char => decide (field.1 = key)) ∘
        fun field : String × Option Json => (field.1, valueText numerals before field.2)) = fun field => decide (field.1 = key) := rfl
    rw [names] at found
    cases left : fields.find? fun field => field.1 = key with
    | none =>
      rw [left, Option.map_none, eq_comm, Option.map_eq_none_iff] at found
      rw [found]
    | some field =>
      rw [left, Option.map_some, eq_comm, Option.map_eq_some_iff] at found
      obtain ⟨other, right, pair⟩ := found
      rw [right]
      exact (congrArg Prod.snd pair).symm
  all_goals rfl

end StableText
