import Octraban.Core.CodeUnits

/-! The sanitizing of one text: three deletions in sequence, then the test for SQL. -/
namespace Octraban.Sanitize

open CodeUnits Regex

def opening : UInt16 := unit '<'

def closing : UInt16 := unit '>'

def sign : UInt16 := unit '='

/-- `/<[^>]*>/g` -/
def htmlTag : Pattern UInt16 := .both (.one (· = opening)) (.both (.repeated (· ≠ closing)) (.one (· = closing)))

def schemes : Pattern UInt16 := .anyOf [word "javascript", word "vbscript", word "data"]

/-- `/\b(javascript|vbscript|data):/gi` -/
def dangerousProto : Pattern UInt16 := .both .boundary (.both schemes (.one (· = unit ':')))

def handlerWord : Pattern UInt16 :=
  .both (word "on") (.both (.one isWord) (.both (.repeated isWord) (.both (.repeated isSpace) (.one (· = sign)))))

/-- `/\bon\w+\s*=/gi` -/
def inlineHandler : Pattern UInt16 := .both .boundary handlerWord

/-- Two words with white space between them. -/
def spaced (first second : String) : Pattern UInt16 := .both (word first) (.both (.some isSpace) (word second))

/-- `/('|--|;|\/\*|\*\/|xp_|exec\s+|union\s+select|drop\s+table|insert\s+into|delete\s+from)/i` -/
def sqlPattern : Pattern UInt16 :=
  .anyOf [exactly "'", exactly "--", exactly ";", exactly "/*", exactly "*/", word "xp_", .both (word "exec") (.some isSpace),
    spaced "union" "select", spaced "drop" "table", spaced "insert" "into", spaced "delete" "from"]

def maxStringLen : Nat := 2048

/-- `text.replace(r, '')` -/
def delete (r : Pattern UInt16) (text : Text) : Text := replaceAll isWord r [] false text

/-- `r.test(text)` -/
def found (r : Pattern UInt16) (text : Text) : Bool := test isWord r false text

def stripHtml (value : Text) : Text := delete inlineHandler (delete dangerousProto (delete htmlTag value))

/-- Nothing when the code throws. -/
def sanitizeString (value : Text) : Option Text :=
  let trimmed := (trim value).take maxStringLen
  let stripped := stripHtml trimmed
  if found sqlPattern stripped then none else some stripped

example : sanitizeString (units " <b>hi</b> onclick =x ") = some (units "hi x") := by decide

/-- No tag, scheme, handler or SQL. -/
def CleanText (text : Text) : Prop :=
  found htmlTag text = false ∧ found dangerousProto text = false ∧ found inlineHandler text = false ∧
    found sqlPattern text = false

instance (text : Text) : Decidable (CleanText text) := inferInstanceAs (Decidable (_ ∧ _))

/-- What a sanitized text should be. -/
def Complete (text : Text) : Prop := CleanText text ∧ sanitizeString text = some text

/-- `on\w+`, when all of it are word characters. -/
def onWord : Text → Bool
  | o :: n :: _ :: _ => lower o = unit 'o' && lower n = unit 'n'
  | _ => false

/-- A sign follows, white space aside. -/
def Signed (text : Text) : Prop := (text.dropWhile isSpace).head? = some sign

instance (text : Text) : Decidable (Signed text) := inferInstanceAs (Decidable (_ = _))

/-- A whole inline handler. -/
inductive Handler : Text → Prop where
  | mk (run blank : Text) (named : onWord run = true) (letters : ∀ c ∈ run, isWord c = true)
      (spaces : ∀ c ∈ blank, isSpace c = true) : Handler (run ++ blank ++ [sign])

/-- White space and handlers up to a sign. -/
@[mk_iff] inductive Linked : Text → Prop where
  | sign (rest : Text) : Linked (sign :: rest)
  | space (c : UInt16) (rest : Text) (space : isSpace c = true) (linked : Linked rest) : Linked (c :: rest)
  | handler (h rest : Text) (handler : Handler h) (linked : Linked rest) : Linked (h ++ rest)

/-- Some word that begins with "on" is parted from a sign by handlers, which are deleted. -/
@[mk_iff] inductive Rejoined : Text → Prop where
  | here (run : Text) (c : UInt16) (rest : Text) (named : onWord run = true) (letters : ∀ c ∈ run, isWord c = true)
      (space : isSpace c = true) (parted : ¬ Signed rest) (linked : Linked rest) : Rejoined (run ++ c :: rest)
  | later (run : Text) (c : UInt16) (rest : Text) (letters : ∀ c ∈ run, isWord c = true) (apart : isWord c = false)
      (rejoined : Rejoined rest) : Rejoined (run ++ c :: rest)

/-- Handlers and nothing else. -/
@[mk_iff] inductive Handlers : Text → Prop where
  | nil : Handlers []
  | cons (h rest : Text) (handler : Handler h) (handlers : Handlers rest) : Handlers (h ++ rest)

/-- White space comes first, handlers aside. -/
@[mk_iff] inductive SpaceFirst : Text → Prop where
  | here (c : UInt16) (rest : Text) (space : isSpace c = true) : SpaceFirst (c :: rest)
  | later (h rest : Text) (handler : Handler h) (first : SpaceFirst rest) : SpaceFirst (h ++ rest)

/-- White space comes last, handlers aside. -/
@[mk_iff] inductive SpaceLast : Text → Prop where
  | here (run : Text) (c : UInt16) (rest : Text) (letters : ∀ c ∈ run, isWord c = true) (space : isSpace c = true)
      (handlers : Handlers rest) : SpaceLast (run ++ c :: rest)
  | later (run : Text) (c : UInt16) (rest : Text) (letters : ∀ c ∈ run, isWord c = true) (apart : isWord c = false)
      (last : SpaceLast rest) : SpaceLast (run ++ c :: rest)

/-- The trimmed and cut text without its tags and schemes. -/
def schemeless (value : Text) : Text := delete dangerousProto (delete htmlTag ((trim value).take maxStringLen))

/-- The deletion of the handlers leaves no new handler and no white space at the ends. -/
def Settled (value : Text) : Prop :=
  ¬ Rejoined (schemeless value) ∧ ¬ SpaceFirst (schemeless value) ∧ ¬ SpaceLast (schemeless value)

variable {text rest h t : Text} {run : Text} {c d u : UInt16} {r : Pattern UInt16}

theorem toNat_of_isWord (letter : isWord u = true) : u.toNat < 123 := by
  have low : unit 'z' = 122 ∧ unit 'Z' = 90 ∧ unit '9' = 57 ∧ unit '_' = 95 := by decide
  simp only [isWord, isDigit, between, Bool.or_eq_true, Bool.and_eq_true, decide_eq_true_eq, low, UInt16.le_iff_toNat_le] at letter
  rcases letter with ((⟨-, h⟩ | ⟨-, h⟩) | ⟨-, h⟩) | rfl
  · exact Nat.lt_succ_of_le h
  · exact Nat.lt_of_le_of_lt h (by decide)
  · exact Nat.lt_of_le_of_lt h (by decide)
  · decide

/-- The code units below the letters' end, one by one. -/
theorem forall_of_isWord {P : UInt16 → Prop} (each : ∀ n < 123, isWord (UInt16.ofNat n) = true → P (UInt16.ofNat n))
    (letter : isWord u = true) : P u := by
  have same : UInt16.ofNat u.toNat = u := by simp
  rw [← same] at letter ⊢
  exact each _ (by simpa using toNat_of_isWord (same ▸ letter)) letter

theorem isSpace_of_isWord (letter : isWord u = true) : isSpace u = false :=
  forall_of_isWord (P := fun u => isSpace u = false) (by decide) letter

theorem ne_sign_of_isWord (letter : isWord u = true) : u ≠ sign := by
  rintro rfl
  exact absurd letter (by decide)

theorem isWord_of_isSpace (space : isSpace u = true) : isWord u = false := by
  by_contra letter
  rw [isSpace_of_isWord (by simpa using letter)] at space
  cases space

theorem isWord_of_lower {v : UInt16} (letter : isWord v = true) (same : lower u = lower v) : isWord u = true := by
  have small : isWord (lower v) = true := forall_of_isWord (P := fun v => isWord (lower v) = true) (by decide) letter
  rw [← same, lower] at small
  split at small
  · rename_i capital
    simp [isWord, capital]
  · exact small

theorem ends_htmlTag (before : Bool) (c : UInt16) (rest : Text) :
    ends isWord htmlTag before (c :: rest) = [] ↔ ¬ (c = opening ∧ closing ∈ rest) := by
  have inner (before : Bool) (text : Text) :
      ends isWord (.both (.repeated (· ≠ closing)) (.one (· = closing))) before text = [] ↔ closing ∉ text := by
    rw [ends_repeated_both rfl (by simp [Pattern.starts])]
    have none_iff : closing ∉ text ↔ text.dropWhile (· ≠ closing) = [] := by
      rw [List.dropWhile_eq_nil_iff]
      simp only [decide_eq_true_eq]
      exact ⟨fun absent x member same => absent (same ▸ member), fun all member => all closing member rfl⟩
    rw [none_iff]
    cases behind : text.dropWhile (· ≠ closing) with
    | nil => simp [ends]
    | cons d more =>
      have last := List.head?_dropWhile_not (fun x => decide (x ≠ closing)) text
      rw [behind] at last
      obtain rfl : d = closing := by simpa using last
      simp [ends]
  rw [htmlTag, ends, ends]
  by_cases opens : c = opening
  · simp only [opens, decide_true, if_true, List.flatMap_cons, List.flatMap_nil, List.append_nil, inner, true_and]
  · simp [opens]

/-- A tag is an opening mark with a closing one behind it. -/
theorem found_htmlTag (before : Bool) (text : Text) :
    test isWord htmlTag before text = false ↔ ¬ [opening, closing].Sublist text := by
  induction text generalizing before with
  | nil => simp [test, ends, htmlTag]
  | cons c rest ih =>
    rw [test, Bool.or_eq_false_iff, ih, Option.isSome_eq_false_iff, Option.isNone_iff_eq_none, List.head?_eq_none_iff,
      ends_htmlTag]
    constructor
    · rintro ⟨unopened, free⟩ inside
      rcases List.sublist_cons_iff.mp inside with later | ⟨tail, same, behind⟩
      · exact free later
      · obtain ⟨rfl, rfl⟩ := List.cons_eq_cons.mp same
        exact unopened ⟨rfl, List.singleton_sublist.mp behind⟩
    · intro free
      refine ⟨fun ⟨opens, closes⟩ => free ?_, fun later => free (later.cons c)⟩
      exact opens ▸ (List.singleton_sublist.mpr closes).cons_cons opening

theorem replaceAll_htmlTag (before : Bool) (text : Text) :
    ¬ [opening, closing].Sublist (replaceAll isWord htmlTag [] before text) := by
  obtain ⟨size, bound⟩ : ∃ size, text.length ≤ size := ⟨_, le_refl _⟩
  induction size generalizing before text with
  | zero =>
    obtain rfl := List.length_eq_zero_iff.mp (Nat.le_zero.mp bound)
    simp
  | succ size ih =>
    cases text with
    | nil => simp
    | cons c rest =>
      rw [List.length_cons] at bound
      rw [replaceAll_cons rfl]
      cases ended : (ends isWord htmlTag before (c :: rest)).head? with
      | none =>
        have unopened := (ends_htmlTag before c rest).mp (List.head?_eq_none_iff.mp ended)
        intro inside
        rcases List.sublist_cons_iff.mp inside with later | ⟨tail, same, behind⟩
        · exact ih _ rest (by omega) later
        · obtain ⟨rfl, rfl⟩ := List.cons_eq_cons.mp same
          have closes := (replaceAll_nil_sublist rfl _ rest).subset (List.singleton_sublist.mp behind)
          exact unopened ⟨rfl, closes⟩
      | some place =>
        have shorter := length_lt_of_mem_ends (r := htmlTag) rfl (List.mem_of_mem_head? ended)
        rw [List.length_cons] at shorter
        exact ih place.1 place.2 (by omega)

theorem delete_sublist (solid : r.nullable = false) (text : Text) : (delete r text).Sublist text :=
  replaceAll_nil_sublist solid false text

theorem delete_eq_iff (solid : r.nullable = false) : delete r text = text ↔ found r text = false :=
  replaceAll_nil_eq_iff solid

theorem found_htmlTag_of_sublist {part : Text} (inner : part.Sublist (delete htmlTag text)) : found htmlTag part = false :=
  (found_htmlTag false part).mpr fun inside => replaceAll_htmlTag false text (inside.trans inner)

/-! ## Words -/

theorem starts_word (name : String) (letters : ∀ v ∈ units name, isWord v = true) (some_name : units name ≠ [])
    (apart : isWord c = false) : (word name).starts c = false := by
  rw [word]
  cases spelled : units name with
  | nil => exact absurd spelled some_name
  | cons v rest =>
    have first := letters v (spelled ▸ List.mem_cons_self)
    have other : lower c ≠ lower v := by
      intro same
      rw [isWord_of_lower first same] at apart
      cases apart
    simp [Pattern.row, Pattern.starts, Pattern.nullable, other]

theorem avoids_row {classes : List (UInt16 → Bool)} (foreign : ∀ p ∈ classes, p c = false) :
    (Pattern.row classes).avoids c = true := by
  induction classes with
  | nil => rfl
  | cons p rest ih =>
    obtain ⟨first, foreign⟩ := List.forall_mem_cons.mp foreign
    rw [Pattern.row, Pattern.avoids, Pattern.avoids, first, ih foreign]
    rfl

theorem avoids_word (name : String) (letters : ∀ v ∈ units name, isWord v = true) (apart : isWord c = false) :
    (word name).avoids c = true := by
  refine avoids_row fun p member => ?_
  obtain ⟨v, listed, rfl⟩ := List.mem_map.mp member
  refine decide_eq_false fun same => ?_
  rw [isWord_of_lower (letters v listed) same] at apart
  cases apart

theorem letters_of_scheme : ∀ name ∈ ["javascript", "vbscript", "data"], (∀ v ∈ units name, isWord v = true) ∧ units name ≠ [] := by
  decide

theorem schemes_avoids (apart : isWord c = false) : schemes.avoids c = true := by
  have each (name : String) (listed : name ∈ ["javascript", "vbscript", "data"]) : (word name).avoids c = true :=
    avoids_word name (letters_of_scheme name listed).1 apart
  simp [schemes, Pattern.anyOf, Pattern.avoids, each]

theorem wordly_schemes : (Pattern.both schemes (.one (· = unit ':'))).Wordly isWord := by
  refine ⟨by decide, fun c apart => ?_⟩
  have solid : schemes.nullable = false := by decide
  have each (name : String) (listed : name ∈ ["javascript", "vbscript", "data"]) : (word name).starts c = false := by
    obtain ⟨letters, some_name⟩ := letters_of_scheme name listed
    exact starts_word name letters some_name apart
  simp only [Pattern.starts, solid, Bool.false_and, Bool.or_false]
  simp [schemes, Pattern.anyOf, Pattern.starts, each]

/-- The whole word is a scheme. -/
def isScheme (run : Text) : Bool := (ends isWord schemes false run).any (·.2.isEmpty)

theorem ends_schemes (letters : ∀ c ∈ run, isWord c = true) (apart : isWord c = false) (rest : Text) :
    (ends isWord (.both schemes (.one (· = unit ':'))) false (run ++ c :: rest)).head? =
      if c = unit ':' ∧ isScheme run = true then some (false, rest) else none := by
  have inner : ∀ place ∈ ends isWord schemes false run, ∀ d ∈ place.2, isWord d = true := by
    intro place member d listed
    obtain ⟨consumed, split, -⟩ := consumed_of_mem_ends member
    exact letters d (split ▸ List.mem_append_right _ listed)
  rw [ends, ends_append (schemes_avoids apart) apart, extend, isScheme]
  generalize ends isWord schemes false run = places at inner ⊢
  induction places with
  | nil => simp
  | cons place more ih =>
    obtain ⟨first, inner⟩ := List.forall_mem_cons.mp inner
    have later := ih inner
    rw [List.map_cons, List.flatMap_cons]
    cases behind : place.2 with
    | nil =>
      by_cases colon : c = unit ':'
      · simp [ends, colon, behind]
        decide
      · simpa [ends, colon, behind] using later
    | cons d tail =>
      have letter := first d (behind ▸ List.mem_cons_self)
      have other : d ≠ unit ':' := by
        rintro rfl
        exact absurd letter (by decide)
      simpa [ends, other, behind] using later

/-- A word goes with its colon when it is a scheme. -/
theorem delete_scheme (letters : ∀ c ∈ run, isWord c = true) (apart : isWord c = false) (rest : Text) :
    delete dangerousProto (run ++ c :: rest) = if c = unit ':' ∧ isScheme run = true then delete dangerousProto rest
      else run ++ c :: delete dangerousProto rest := by
  rw [delete, dangerousProto, replaceAll_word wordly_schemes letters apart, ends_schemes letters apart]
  split <;> rfl

/-- A mark that is no word character matches nowhere in a word. -/
theorem ends_one_word {mark : UInt16} (foreign : isWord mark = false) (letters : ∀ c ∈ run, isWord c = true) (before : Bool)
    (part : Text) (inner : part <:+ run) : ends isWord (.one (· = mark)) before part = [] := by
  cases part with
  | nil => rfl
  | cons d tail =>
    have letter := letters d (inner.subset List.mem_cons_self)
    have other : d ≠ mark := by
      rintro rfl
      rw [foreign] at letter
      cases letter
    rw [ends, if_neg (by simpa using other)]

theorem delete_scheme_last (letters : ∀ c ∈ run, isWord c = true) : delete dangerousProto run = run :=
  replaceAll_last_word wordly_schemes letters (ends_both_eq_nil (ends_one_word (by decide) letters))

/-- The words that are left stand in front of the same characters as before. -/
theorem delete_scheme_twice (text : Text) : delete dangerousProto (delete dangerousProto text) = delete dangerousProto text := by
  induction text using words_induction isWord with
  | last run letters => rw [delete_scheme_last letters, delete_scheme_last letters]
  | more run c rest letters apart ih =>
    rw [delete_scheme letters apart]
    split
    · exact ih rest (le_refl _)
    · rename_i kept
      rw [delete_scheme letters apart, if_neg kept, ih rest (le_refl _)]

/-! ## Handlers -/

theorem ends_handlerWord (letters : ∀ c ∈ run, isWord c = true) (apart : isWord c = false) (rest : Text) :
    ends isWord handlerWord false (run ++ c :: rest) =
      if onWord run = true then ends isWord (.one (· = sign)) false ((c :: rest).dropWhile isSpace) else [] := by
  have on : units "on" = [unit 'o', unit 'n'] ∧ lower (unit 'o') = unit 'o' ∧ lower (unit 'n') = unit 'n' := by decide
  have unlike : lower c ≠ unit 'o' ∧ lower c ≠ unit 'n' := by
    constructor
    · intro same
      rw [isWord_of_lower (v := unit 'o') (by decide) (same.trans on.2.1.symm)] at apart
      cases apart
    · intro same
      rw [isWord_of_lower (v := unit 'n') (by decide) (same.trans on.2.2.symm)] at apart
      cases apart
  have tail (before : Bool) (more : Text) (letters : ∀ c ∈ more, isWord c = true) :
      ends isWord (.both (.repeated isWord) (.both (.repeated isSpace) (.one (· = sign)))) before (more ++ c :: rest) =
        ends isWord (.one (· = sign)) false ((c :: rest).dropWhile isSpace) := by
    have unspaced (c : UInt16) (space : isSpace c = true) : (Pattern.one (· = sign)).starts c = false := by
      refine decide_eq_false ?_
      rintro rfl
      exact absurd space (by decide)
    have unnamed (c : UInt16) (letter : isWord c = true) :
        (Pattern.both (.repeated isSpace) (.one (· = sign))).starts c = false := by
      simp [Pattern.starts, Pattern.nullable, isSpace_of_isWord letter, ne_sign_of_isWord letter]
    rw [ends_repeated_both rfl unnamed, ends_repeated_both rfl unspaced, List.dropWhile_append_of_pos letters,
      List.dropWhile_cons_of_neg (by simp [apart])]
    cases (c :: rest).dropWhile isSpace <;> rfl
  rw [handlerWord, word, on.1]
  match run, letters with
  | [], _ => simp [Pattern.row, ends, on, unlike, onWord]
  | [o], _ =>
    by_cases first : lower o = unit 'o' <;> simp [Pattern.row, ends, on, unlike, onWord, first]
  | [o, n], _ =>
    by_cases first : lower o = unit 'o' <;> by_cases second : lower n = unit 'n' <;>
      simp [Pattern.row, ends, on, onWord, first, second, apart]
  | o :: n :: w :: more, letters =>
    have letter : isWord w = true := letters w (by simp)
    have behind := tail (isWord w) more fun c member => letters c (by simp [member])
    by_cases first : lower o = unit 'o' <;> by_cases second : lower n = unit 'n' <;>
      simp only [Pattern.row, ends, on, onWord, first, second, letter, List.map_cons, List.map_nil, List.cons_append,
        List.flatMap_cons, List.flatMap_nil, List.append_nil, decide_true, decide_false, Bool.and_self, Bool.and_false,
        Bool.false_and, if_true, if_false, Bool.false_eq_true] at behind ⊢
    exact behind

theorem wordly_handlerWord : handlerWord.Wordly isWord := by
  refine ⟨by decide, fun c apart => ?_⟩
  have solid : (word "on").nullable = false := by decide
  simp [handlerWord, Pattern.starts, solid, starts_word "on" (by decide) (by decide) apart]

theorem delete_handler_last (letters : ∀ c ∈ run, isWord c = true) : delete inlineHandler run = run := by
  refine replaceAll_last_word wordly_handlerWord letters ?_
  refine ends_both_eq_nil fun _ part inner => ends_both_eq_nil fun _ part' inner' => ends_both_eq_nil fun _ part'' inner'' => ?_
  refine ends_both_eq_nil fun before' rest shorter => ?_
  exact ends_one_word (by decide) letters before' rest (shorter.trans (inner''.trans (inner'.trans inner)))

theorem delete_handler_word (letters : ∀ c ∈ run, isWord c = true) (apart : isWord c = false)
    (unmatched : ¬ (onWord run = true ∧ Signed (c :: rest))) :
    delete inlineHandler (run ++ c :: rest) = run ++ c :: delete inlineHandler rest := by
  rw [delete, inlineHandler, replaceAll_word wordly_handlerWord letters apart, ends_handlerWord letters apart]
  by_cases named : onWord run = true
  · rw [if_pos named]
    have unsigned : (ends isWord (.one (· = sign)) false ((c :: rest).dropWhile isSpace)).head? = none := by
      cases behind : (c :: rest).dropWhile isSpace with
      | nil => rfl
      | cons d more =>
        have other : d ≠ sign := fun same => unmatched ⟨named, by rw [Signed, behind, same]; rfl⟩
        rw [ends, if_neg (by simpa using other)]
        rfl
    rw [unsigned]
    rfl
  · rw [if_neg named]
    rfl

theorem Handler.split (handler : Handler h) (rest : Text) : ∃ run c behind, onWord run = true ∧ (∀ c ∈ run, isWord c = true) ∧
    isWord c = false ∧ h ++ rest = run ++ c :: behind ∧ (c :: behind).dropWhile isSpace = sign :: rest := by
  obtain ⟨run, blank, named, letters, spaces⟩ := handler
  have skipped : (blank ++ sign :: rest).dropWhile isSpace = sign :: rest := by
    rw [List.dropWhile_append_of_pos spaces, List.dropWhile_cons_of_neg (by decide)]
  cases blank with
  | nil => exact ⟨run, sign, rest, named, letters, by decide, by simp, skipped⟩
  | cons c more =>
    exact ⟨run, c, more ++ sign :: rest, named, letters, isWord_of_isSpace (spaces c List.mem_cons_self), by simp, skipped⟩

theorem delete_handler (handler : Handler h) (rest : Text) :
    delete inlineHandler (h ++ rest) = delete inlineHandler rest := by
  obtain ⟨run, c, behind, named, letters, apart, split, skipped⟩ := handler.split rest
  rw [split, delete, inlineHandler, replaceAll_word wordly_handlerWord letters apart, ends_handlerWord letters apart, if_pos named,
    skipped]
  rfl

theorem handler_of_signed (letters : ∀ c ∈ run, isWord c = true) (named : onWord run = true) (signed : Signed text) :
    ∃ h more, Handler h ∧ run ++ text = h ++ more ∧ more.length < text.length := by
  obtain ⟨more, behind⟩ := List.head?_eq_some_iff.mp signed
  have split := List.takeWhile_append_dropWhile (p := isSpace) (l := text)
  rw [behind] at split
  refine ⟨_, more, .mk run (text.takeWhile isSpace) named letters fun c member => List.mem_takeWhile_imp member, ?_, ?_⟩
  · simp only [List.append_assoc, List.singleton_append, split]
  · rw [← split, List.length_append, List.length_cons]
    omega

/-- A text is a word, or starts with a handler or with a word that is kept and the character behind it. -/
theorem handlers_induction {P : Text → Prop} (last : ∀ run, (∀ c ∈ run, isWord c = true) → P run)
    (deleted : ∀ h rest, Handler h → P rest → P (h ++ rest))
    (kept : ∀ run c rest, (∀ c ∈ run, isWord c = true) → isWord c = false → ¬ (onWord run = true ∧ Signed (c :: rest)) →
      P rest → P (run ++ c :: rest)) (text : Text) : P text := by
  induction text using words_induction isWord with
  | last run letters => exact last run letters
  | more run c rest letters apart ih =>
    by_cases matched : onWord run = true ∧ Signed (c :: rest)
    · obtain ⟨h, more, handler, split, shorter⟩ := handler_of_signed letters matched.1 matched.2
      rw [split]
      exact deleted h more handler (ih more (Nat.le_of_lt_succ shorter))
    · exact kept run c rest letters apart matched (ih rest (le_refl _))

/-- The schemes do not come back when handlers are deleted. -/
theorem delete_scheme_handlers (free : found dangerousProto text = false) :
    found dangerousProto (delete inlineHandler text) = false := by
  induction text using handlers_induction with
  | last run letters => rwa [delete_handler_last letters]
  | deleted h rest handler ih =>
    rw [delete_handler handler]
    refine ih ?_
    have behind := test_of_append free
    have after : wordAfter isWord false h = false := by
      obtain ⟨run, blank, -⟩ := handler
      rw [wordAfter_concat]
      decide
    rwa [after] at behind
  | kept run c rest letters apart unmatched ih =>
    have solid : dangerousProto.nullable = false := by decide
    rw [delete_handler_word letters apart unmatched, ← delete_eq_iff solid, delete_scheme letters apart]
    rw [← delete_eq_iff solid, delete_scheme letters apart] at free
    have unlisted : ¬ (c = unit ':' ∧ isScheme run = true) := by
      intro listed
      rw [if_pos listed] at free
      have shorter := (delete_sublist solid rest).length_le
      have same := congrArg List.length free
      rw [List.length_append, List.length_cons] at same
      omega
    rw [if_neg unlisted] at free ⊢
    have rest_free := (List.cons_eq_cons.mp (List.append_cancel_left free)).2
    rw [(delete_eq_iff solid).mpr (ih ((delete_eq_iff solid).mp rest_free))]

/-! ## What the deletion of handlers leaves -/

theorem Handler.head (handler : Handler h) : ∃ c tail, h = c :: tail ∧ isWord c = true := by
  obtain ⟨run, blank, named, letters, -⟩ := handler
  cases run with
  | nil => cases named
  | cons c more => exact ⟨c, more ++ blank ++ [sign], rfl, letters c List.mem_cons_self⟩

/-- A text starts with one handler at most. -/
theorem Handler.unique {h' rest' : Text} (handler : Handler h) (handler' : Handler h') (same : h ++ rest = h' ++ rest') :
    rest = rest' := by
  have past {h : Text} (handler : Handler h) (rest : Text) :
      ((h ++ rest).dropWhile isWord).dropWhile isSpace = sign :: rest := by
    obtain ⟨run, c, behind, -, letters, apart, split, skipped⟩ := handler.split rest
    rw [split, List.dropWhile_append_of_pos letters, List.dropWhile_cons_of_neg (by simp [apart]), skipped]
  have first := past handler rest
  rw [same, past handler' rest'] at first
  exact (List.cons_eq_cons.mp first).2.symm

theorem not_handler_last (letters : ∀ c ∈ run, isWord c = true) (handler : Handler h) : run ≠ h ++ t := by
  rintro rfl
  obtain ⟨name, blank, -⟩ := handler
  exact ne_sign_of_isWord (letters sign (by simp)) rfl

theorem words_unique {run' rest' : Text} (letters : ∀ c ∈ run, isWord c = true) (letters' : ∀ c ∈ run', isWord c = true)
    (apart : isWord c = false) (apart' : isWord d = false) (same : run ++ c :: rest = run' ++ d :: rest') :
    run = run' ∧ c = d ∧ rest = rest' := by
  have words := congrArg (List.takeWhile isWord) same
  rw [List.takeWhile_append_of_pos letters, List.takeWhile_append_of_pos letters', List.takeWhile_cons_of_neg (by simp [apart]),
    List.takeWhile_cons_of_neg (by simp [apart']), List.append_nil, List.append_nil] at words
  subst words
  exact ⟨rfl, List.cons_eq_cons.mp (List.append_cancel_left same)⟩

/-- A kept word is no handler. -/
theorem not_handler (letters : ∀ c ∈ run, isWord c = true) (apart : isWord c = false)
    (unmatched : ¬ (onWord run = true ∧ Signed (c :: rest))) (handler : Handler h) : run ++ c :: rest ≠ h ++ t := by
  intro same
  obtain ⟨run', c', behind, named, letters', apart', split, skipped⟩ := handler.split t
  rw [split] at same
  obtain ⟨rfl, rfl, rfl⟩ := words_unique letters letters' apart apart' same
  exact unmatched ⟨named, by rw [Signed, skipped]; rfl⟩

theorem signed_cons : Signed (c :: rest) ↔ c = sign ∨ isSpace c = true ∧ Signed rest := by
  have unspaced : isSpace sign = false := by decide
  by_cases space : isSpace c = true
  · have other : c ≠ sign := by
      rintro rfl
      rw [unspaced] at space
      cases space
    rw [Signed, List.dropWhile_cons_of_pos space, or_iff_right other, Signed, and_iff_right space]
  · rw [Signed, List.dropWhile_cons_of_neg space, List.head?_cons, Option.some_inj]
    simp [space]

theorem linked_cons (unhandled : ∀ h rest', Handler h → c :: rest ≠ h ++ rest') :
    Linked (c :: rest) ↔ c = sign ∨ isSpace c = true ∧ Linked rest := by
  constructor
  · intro linked
    rcases (linked_iff _).mp linked with ⟨rest', same⟩ | ⟨d, rest', space, behind, same⟩ | ⟨h, rest', handler, -, same⟩
    · exact .inl (List.cons_eq_cons.mp same).1
    · obtain ⟨rfl, rfl⟩ := List.cons_eq_cons.mp same
      exact .inr ⟨space, behind⟩
    · exact absurd same (unhandled h rest' handler)
  · rintro (rfl | ⟨space, behind⟩)
    · exact .sign rest
    · exact .space c rest space behind

theorem linked_handler (handler : Handler h) : Linked (h ++ rest) ↔ Linked rest := by
  refine ⟨fun linked => ?_, Linked.handler h rest handler⟩
  obtain ⟨c, tail, first, letter⟩ := handler.head
  rcases (linked_iff _).mp linked with ⟨rest', same⟩ | ⟨d, rest', space, -, same⟩ | ⟨h', rest', handler', linked', same⟩
  · rw [first] at same
    exact absurd (List.cons_eq_cons.mp same).1 (ne_sign_of_isWord letter)
  · rw [first] at same
    rw [(List.cons_eq_cons.mp same).1, isWord_of_isSpace space] at letter
    cases letter
  · rwa [handler.unique handler' same]

/-- What is left begins with a sign, white space aside. -/
theorem linked_iff_signed (text : Text) : Linked text ↔ Signed (delete inlineHandler text) := by
  have word_first {c : UInt16} {rest rest' : Text} (letter : isWord c = true)
      (unhandled : ∀ h t, Handler h → c :: rest ≠ h ++ t) : Linked (c :: rest) ↔ Signed (c :: rest') := by
    rw [linked_cons unhandled, signed_cons]
    simp [ne_sign_of_isWord letter, isSpace_of_isWord letter]
  induction text using handlers_induction with
  | last run letters =>
    rw [delete_handler_last letters]
    cases run with
    | nil =>
      refine iff_of_false (fun linked => ?_) (by simp [Signed])
      rcases (linked_iff _).mp linked with ⟨rest, same⟩ | ⟨c, rest, -, -, same⟩ | ⟨h, rest, handler, -, same⟩
      · cases same
      · cases same
      · exact not_handler_last letters handler same
    | cons c more => exact word_first (letters c List.mem_cons_self) fun h t handler => not_handler_last letters handler
  | deleted h rest handler ih => rwa [linked_handler handler, delete_handler handler]
  | kept run c rest letters apart unmatched ih =>
    rw [delete_handler_word letters apart unmatched]
    have unhandled (h t : Text) (handler : Handler h) := not_handler (t := t) letters apart unmatched handler
    cases run with
    | nil => rw [List.nil_append, List.nil_append, linked_cons unhandled, signed_cons, Iff.intro ih.mp ih.mpr]
    | cons d more => exact word_first (letters d List.mem_cons_self) unhandled

/-- A tail of white space and a sign. -/
theorem of_dropWhile {P : Text → Prop} {behind : Text}
    (skip : ∀ c more, isWord c = false → (c :: more).dropWhile isSpace = sign :: rest → (P (c :: more) ↔ P more))
    (skipped : behind.dropWhile isSpace = sign :: rest) : P behind ↔ P rest := by
  induction behind with
  | nil => cases skipped
  | cons c more ih =>
    by_cases space : isSpace c = true
    · rw [skip c more (isWord_of_isSpace space) skipped, ih (by rwa [List.dropWhile_cons_of_pos space] at skipped)]
    · have signed := skipped
      rw [List.dropWhile_cons_of_neg space] at signed
      obtain ⟨rfl, rfl⟩ := List.cons_eq_cons.mp signed
      exact skip sign more (by decide) skipped

theorem rejoined_word (letters : ∀ c ∈ run, isWord c = true) (apart : isWord c = false) (rest : Text) :
    Rejoined (run ++ c :: rest) ↔
      onWord run = true ∧ isSpace c = true ∧ ¬ Signed rest ∧ Linked rest ∨ Rejoined rest := by
  constructor
  · intro rejoined
    rcases (rejoined_iff _).mp rejoined with
      ⟨run', d, rest', named, letters', space, parted, linked, same⟩ | ⟨run', d, rest', letters', apart', later, same⟩
    · obtain ⟨rfl, rfl, rfl⟩ := words_unique letters letters' apart (isWord_of_isSpace space) same
      exact .inl ⟨named, space, parted, linked⟩
    · obtain ⟨rfl, rfl, rfl⟩ := words_unique letters letters' apart apart' same
      exact .inr later
  · rintro (⟨named, space, parted, linked⟩ | later)
    · exact .here run c rest named letters space parted linked
    · exact .later run c rest letters apart later

theorem not_rejoined_last (letters : ∀ c ∈ run, isWord c = true) : ¬ Rejoined run := by
  intro rejoined
  have inside {run' rest : Text} {c : UInt16} (apart : isWord c = false) (same : run = run' ++ c :: rest) : False := by
    have letter := letters c (by simp [same])
    rw [apart] at letter
    cases letter
  rcases (rejoined_iff _).mp rejoined with ⟨run', d, rest', -, -, space, -, -, same⟩ | ⟨run', d, rest', -, apart, -, same⟩
  · exact inside (isWord_of_isSpace space) same
  · exact inside apart same

theorem rejoined_handler (handler : Handler h) : Rejoined (h ++ rest) ↔ Rejoined rest := by
  have skip (c : UInt16) (more : Text) (apart : isWord c = false) (_ : (c :: more).dropWhile isSpace = sign :: rest) :
      Rejoined (c :: more) ↔ Rejoined more := by
    have word := @rejoined_word [] c (by simp) apart more
    simpa [onWord] using word
  obtain ⟨run, c, behind, named, letters, apart, split, skipped⟩ := handler.split rest
  have joined : ¬ (onWord run = true ∧ isSpace c = true ∧ ¬ Signed behind ∧ Linked behind) := by
    rintro ⟨-, space, parted, -⟩
    rw [List.dropWhile_cons_of_pos space] at skipped
    exact parted (by rw [Signed, skipped]; rfl)
  rw [split, rejoined_word letters apart, or_iff_right joined, ← skip c behind apart skipped]
  exact of_dropWhile skip skipped

/-- A handler is left exactly where the deletion joins one. -/
theorem rejoined_iff_found (text : Text) :
    Rejoined text ↔ ¬ found inlineHandler (delete inlineHandler text) = false := by
  have solid : inlineHandler.nullable = false := by decide
  rw [← delete_eq_iff solid]
  induction text using handlers_induction with
  | last run letters =>
    rw [delete_handler_last letters, delete_handler_last letters]
    exact iff_of_false (not_rejoined_last letters) fun changed => changed rfl
  | deleted h rest handler ih => rwa [rejoined_handler handler, delete_handler handler]
  | kept run c rest letters apart unmatched ih =>
    rw [delete_handler_word letters apart unmatched, rejoined_word letters apart, Iff.intro ih.mp ih.mpr]
    have signs := linked_iff_signed rest
    rw [signed_cons] at unmatched
    generalize left : delete inlineHandler rest = x at ih signs ⊢
    by_cases matched : onWord run = true ∧ Signed (c :: x)
    · obtain ⟨h, more, handler, split, shorter⟩ := handler_of_signed letters matched.1 matched.2
      have shrinks := (delete_sublist solid more).length_le
      refine iff_of_true (.inl ?_) fun same => ?_
      · have behind := signed_cons.mp matched.2
        have other : c ≠ sign := fun same => unmatched ⟨matched.1, .inl same⟩
        obtain ⟨space, signed⟩ := behind.resolve_left other
        exact ⟨matched.1, space, fun signed => unmatched ⟨matched.1, .inr ⟨space, signed⟩⟩, signs.mpr signed⟩
      · rw [split, delete_handler handler] at same
        rw [same, List.length_append] at shrinks
        obtain ⟨d, tail, first, -⟩ := handler.head
        rw [first, List.length_cons] at shrinks
        omega
    · rw [delete_handler_word letters apart matched]
      have unlinked : ¬ (onWord run = true ∧ isSpace c = true ∧ ¬ Signed rest ∧ Linked rest) := by
        rintro ⟨named, space, -, linked⟩
        exact matched ⟨named, signed_cons.mpr (.inr ⟨space, signs.mp linked⟩)⟩
      rw [or_iff_right unlinked]
      simp

theorem handlers_handler (handler : Handler h) : Handlers (h ++ rest) ↔ Handlers rest := by
  refine ⟨fun handlers => ?_, Handlers.cons h rest handler⟩
  rcases (handlers_iff _).mp handlers with same | ⟨h', rest', handler', behind, same⟩
  · obtain ⟨c, tail, first, -⟩ := handler.head
    rw [first] at same
    cases same
  · rwa [handler.unique handler' same]

/-- All is deleted. -/
theorem handlers_iff_nil (text : Text) : Handlers text ↔ delete inlineHandler text = [] := by
  induction text using handlers_induction with
  | last run letters =>
    rw [delete_handler_last letters, handlers_iff]
    exact or_iff_left fun ⟨h, rest, handler, _, same⟩ => not_handler_last letters handler same
  | deleted h rest handler ih => rwa [handlers_handler handler, delete_handler handler]
  | kept run c rest letters apart unmatched ih =>
    rw [delete_handler_word letters apart unmatched, handlers_iff]
    refine iff_of_false ?_ (by simp)
    rintro (same | ⟨h, rest', handler, -, same⟩)
    · simp at same
    · exact not_handler letters apart unmatched handler same

theorem spaceFirst_cons (unhandled : ∀ h rest', Handler h → c :: rest ≠ h ++ rest') :
    SpaceFirst (c :: rest) ↔ isSpace c = true := by
  constructor
  · intro first
    rcases (spaceFirst_iff _).mp first with ⟨d, rest', space, same⟩ | ⟨h, rest', handler, -, same⟩
    · rwa [(List.cons_eq_cons.mp same).1]
    · exact absurd same (unhandled h rest' handler)
  · exact .here c rest

theorem spaceFirst_handler (handler : Handler h) : SpaceFirst (h ++ rest) ↔ SpaceFirst rest := by
  refine ⟨fun first => ?_, SpaceFirst.later h rest handler⟩
  rcases (spaceFirst_iff _).mp first with ⟨d, rest', space, same⟩ | ⟨h', rest', handler', behind, same⟩
  · obtain ⟨c, tail, head, letter⟩ := handler.head
    rw [head] at same
    rw [(List.cons_eq_cons.mp same).1, isWord_of_isSpace space] at letter
    cases letter
  · rwa [handler.unique handler' same]

theorem spaceFirst_iff_head (text : Text) : SpaceFirst text ↔ (delete inlineHandler text).head?.any isSpace = true := by
  induction text using handlers_induction with
  | last run letters =>
    rw [delete_handler_last letters]
    cases run with
    | nil =>
      refine iff_of_false (fun first => ?_) (by simp)
      rcases (spaceFirst_iff _).mp first with ⟨c, rest, -, same⟩ | ⟨h, rest, handler, -, same⟩
      · cases same
      · exact not_handler_last letters handler same
    | cons c more => exact spaceFirst_cons fun h t handler => not_handler_last letters handler
  | deleted h rest handler ih => rwa [spaceFirst_handler handler, delete_handler handler]
  | kept run c rest letters apart unmatched ih =>
    rw [delete_handler_word letters apart unmatched]
    have unhandled (h t : Text) (handler : Handler h) := not_handler (t := t) letters apart unmatched handler
    cases run with
    | nil => exact spaceFirst_cons unhandled
    | cons d more => exact spaceFirst_cons unhandled

theorem spaceLast_word (letters : ∀ c ∈ run, isWord c = true) (apart : isWord c = false) (rest : Text) :
    SpaceLast (run ++ c :: rest) ↔ isSpace c = true ∧ Handlers rest ∨ SpaceLast rest := by
  constructor
  · intro last
    rcases (spaceLast_iff _).mp last with
      ⟨run', d, rest', letters', space, handlers, same⟩ | ⟨run', d, rest', letters', apart', later, same⟩
    · obtain ⟨rfl, rfl, rfl⟩ := words_unique letters letters' apart (isWord_of_isSpace space) same
      exact .inl ⟨space, handlers⟩
    · obtain ⟨rfl, rfl, rfl⟩ := words_unique letters letters' apart apart' same
      exact .inr later
  · rintro (⟨space, handlers⟩ | later)
    · exact .here run c rest letters space handlers
    · exact .later run c rest letters apart later

theorem not_spaceLast_last (letters : ∀ c ∈ run, isWord c = true) : ¬ SpaceLast run := by
  intro last
  have inside {run' rest : Text} {c : UInt16} (apart : isWord c = false) (same : run = run' ++ c :: rest) : False := by
    have letter := letters c (by simp [same])
    rw [apart] at letter
    cases letter
  rcases (spaceLast_iff _).mp last with ⟨run', d, rest', -, space, -, same⟩ | ⟨run', d, rest', -, apart, -, same⟩
  · exact inside (isWord_of_isSpace space) same
  · exact inside apart same

theorem spaceLast_handler (handler : Handler h) : SpaceLast (h ++ rest) ↔ SpaceLast rest := by
  obtain ⟨run, c, behind, -, letters, apart, split, skipped⟩ := handler.split rest
  have unhandled {text : Text} (signed : text.dropWhile isSpace = sign :: rest) : ¬ Handlers text := by
    intro handlers
    rcases (handlers_iff _).mp handlers with rfl | ⟨h', rest', handler', -, rfl⟩
    · cases signed
    · obtain ⟨d, tail, rfl, letter⟩ := handler'.head
      rw [List.cons_append, List.dropWhile_cons_of_neg (by simp [isSpace_of_isWord letter])] at signed
      exact ne_sign_of_isWord letter (List.cons_eq_cons.mp signed).1
  have ended {c : UInt16} {more : Text} (signed : (c :: more).dropWhile isSpace = sign :: rest) :
      ¬ (isSpace c = true ∧ Handlers more) := by
    rintro ⟨space, handlers⟩
    exact unhandled (by rwa [List.dropWhile_cons_of_pos space] at signed) handlers
  have skip (c : UInt16) (more : Text) (apart : isWord c = false) (signed : (c :: more).dropWhile isSpace = sign :: rest) :
      SpaceLast (c :: more) ↔ SpaceLast more := by
    have word := @spaceLast_word [] c (by simp) apart more
    rwa [or_iff_right (ended signed)] at word
  rw [split, spaceLast_word letters apart, or_iff_right (ended skipped), ← skip c behind apart skipped]
  exact of_dropWhile skip skipped

theorem spaceLast_iff_getLast (text : Text) :
    SpaceLast text ↔ (delete inlineHandler text).getLast?.any isSpace = true := by
  induction text using handlers_induction with
  | last run letters =>
    rw [delete_handler_last letters]
    refine iff_of_false (not_spaceLast_last letters) fun space => ?_
    obtain ⟨c, last, space⟩ := (Option.any_eq_true _ _).mp space
    rw [isSpace_of_isWord (letters c (List.mem_of_getLast? last))] at space
    cases space
  | deleted h rest handler ih => rwa [spaceLast_handler handler, delete_handler handler]
  | kept run c rest letters apart unmatched ih =>
    rw [delete_handler_word letters apart unmatched, spaceLast_word letters apart, handlers_iff_nil, Iff.intro ih.mp ih.mpr,
      List.getLast?_append, List.getLast?_cons]
    cases delete inlineHandler rest using List.reverseRecOn with
    | nil => simp
    | append_singleton front d => simp

/-! ## One text -/

theorem stripHtml_schemeless (value : Text) :
    stripHtml ((trim value).take maxStringLen) = delete inlineHandler (schemeless value) := rfl

theorem trim_sublist (text : Text) : (trim text).Sublist text := by
  rw [trim]
  have inner := (List.dropWhile_sublist isSpace (l := (text.dropWhile isSpace).reverse)).reverse
  rw [List.reverse_reverse] at inner
  exact inner.trans (List.dropWhile_sublist isSpace)

theorem dropWhile_eq_self_iff : text.dropWhile isSpace = text ↔ text.head?.any isSpace = false := by
  cases text with
  | nil => simp
  | cons c rest =>
    by_cases space : isSpace c = true
    · rw [List.dropWhile_cons_of_pos space]
      refine iff_of_false (fun same => ?_) (by simp [space])
      have shorter := (List.dropWhile_sublist isSpace (l := rest)).length_le
      rw [same, List.length_cons] at shorter
      omega
    · rw [List.dropWhile_cons_of_neg space]
      simpa using space

theorem trim_eq_iff : trim text = text ↔ text.head?.any isSpace = false ∧ text.getLast?.any isSpace = false := by
  rw [← List.head?_reverse, ← dropWhile_eq_self_iff, ← dropWhile_eq_self_iff, trim]
  constructor
  · intro same
    have inner := (List.dropWhile_sublist isSpace (l := (text.dropWhile isSpace).reverse)).reverse
    rw [List.reverse_reverse, same] at inner
    have first := (List.dropWhile_sublist isSpace).antisymm inner
    rw [first] at same
    exact ⟨first, by rw [← List.reverse_eq_iff, same]⟩
  · rintro ⟨first, last⟩
    rw [first, last, List.reverse_reverse]

theorem stripHtml_sublist (text : Text) : (stripHtml text).Sublist text := by
  have handlers := delete_sublist (r := inlineHandler) (by decide) (delete dangerousProto (delete htmlTag text))
  have protos := delete_sublist (r := dangerousProto) (by decide) (delete htmlTag text)
  exact handlers.trans (protos.trans (delete_sublist (by decide) text))

theorem stripHtml_eq_iff : stripHtml text = text ↔
    found htmlTag text = false ∧ found dangerousProto text = false ∧ found inlineHandler text = false := by
  have tags : htmlTag.nullable = false := by decide
  have protos : dangerousProto.nullable = false := by decide
  have handlers : inlineHandler.nullable = false := by decide
  constructor
  · intro same
    have third := delete_sublist handlers (delete dangerousProto (delete htmlTag text))
    have second := delete_sublist protos (delete htmlTag text)
    have first := delete_sublist tags text
    have whole : text.Sublist (delete dangerousProto (delete htmlTag text)) := by
      have inner := third
      rwa [← stripHtml, same] at inner
    have untagged := first.antisymm (whole.trans second)
    rw [untagged] at second whole
    have unschemed := second.antisymm whole
    rw [stripHtml, untagged, unschemed] at same
    exact ⟨(delete_eq_iff tags).mp untagged, (delete_eq_iff protos).mp unschemed, (delete_eq_iff handlers).mp same⟩
  · rintro ⟨untagged, unschemed, unhandled⟩
    rw [stripHtml, (delete_eq_iff tags).mpr untagged, (delete_eq_iff protos).mpr unschemed, (delete_eq_iff handlers).mpr unhandled]

/-- A text comes out of the code as it went in. -/
theorem sanitizeString_eq_self_iff : sanitizeString text = some text ↔
    trim text = text ∧ text.length ≤ maxStringLen ∧ CleanText text := by
  constructor
  · intro same
    rw [sanitizeString] at same
    split at same
    · cases same
    · rename_i free
      have same := Option.some.inj same
      have stripped := stripHtml_sublist ((trim text).take maxStringLen)
      have cut := List.take_sublist maxStringLen (trim text)
      rw [same] at stripped free
      have trimmed := (trim_sublist text).antisymm (stripped.trans cut)
      rw [trimmed] at stripped cut same
      have uncut := cut.antisymm stripped
      rw [uncut] at same
      obtain ⟨untagged, unschemed, unhandled⟩ := stripHtml_eq_iff.mp same
      exact ⟨trimmed, List.take_eq_self_iff _ |>.mp uncut, untagged, unschemed, unhandled, by simpa using free⟩
  · rintro ⟨trimmed, short, untagged, unschemed, unhandled, harmless⟩
    rw [sanitizeString, trimmed, List.take_of_length_le short, stripHtml_eq_iff.mpr ⟨untagged, unschemed, unhandled⟩,
      harmless]
    rfl

theorem sanitizeString_eq_some {value : Text} : sanitizeString value = some text ↔
    delete inlineHandler (schemeless value) = text ∧ found sqlPattern text = false := by
  rw [sanitizeString, stripHtml_schemeless]
  split
  · rename_i harmful
    refine iff_of_false nofun ?_
    rintro ⟨rfl, harmless⟩
    rw [harmless] at harmful
    cases harmful
  · rename_i harmless
    rw [Option.some_inj]
    refine ⟨?_, fun same => same.1⟩
    rintro rfl
    exact ⟨rfl, by simpa using harmless⟩

/-- A text that is not refused is complete exactly when nothing is joined and no white space is bared. -/
theorem complete_iff_settled {value : Text} (returned : sanitizeString value = some text) : Complete text ↔ Settled value := by
  obtain ⟨rfl, harmless⟩ := sanitizeString_eq_some.mp returned
  have untagged : found htmlTag (delete inlineHandler (schemeless value)) = false :=
    found_htmlTag_of_sublist ((delete_sublist (by decide) _).trans (delete_sublist (by decide) _))
  have unschemed : found dangerousProto (delete inlineHandler (schemeless value)) = false :=
    delete_scheme_handlers ((delete_eq_iff (by decide)).mp (delete_scheme_twice _))
  have short : (delete inlineHandler (schemeless value)).length ≤ maxStringLen :=
    (stripHtml_sublist _).length_le.trans (List.length_take_le _ _)
  rw [Complete, sanitizeString_eq_self_iff, Settled, trim_eq_iff, CleanText, rejoined_iff_found, spaceFirst_iff_head,
    spaceLast_iff_getLast]
  simp only [untagged, unschemed, harmless, short, Bool.not_eq_true]
  tauto

end Octraban.Sanitize
