import Octraban.Core.CodeUnits

/-! The redaction of stored webhook responses. A text is a list of UTF-16 code units. -/
namespace Octraban.Redaction

open CodeUnits Regex

def quote : UInt16 := unit '"'

/-- `[^\s"',;}\]]` -/
def plain (u : UInt16) : Bool := !isSpace u && !oneOf "\"',;\x7d]" u

/-- `\s*[:=]\s*` after a key -/
def separated (key : Pattern UInt16) : Pattern UInt16 :=
  .both (.both (.both key (.repeated isSpace)) (.one (oneOf ":="))) (.repeated isSpace)

/-- `["']?([^\s"',;}\]]+)` -/
def secretValue : Pattern UInt16 := .both (.optional (.one (oneOf "\"'"))) (.some plain)

def keyed (key : Pattern UInt16) : Pattern UInt16 := .both (separated key) secretValue

def dash : Pattern UInt16 := .optional (.one (oneOf "_-"))

def apiKeys : Pattern UInt16 :=
  .anyOf [.both (word "api") (.both dash (word "key")), word "apikey", .both (word "access") (.both dash (word "token")),
    word "token", word "bearer"]

def authorizationKeys : Pattern UInt16 := .anyOf [word "authorization", word "x-api-key", word "x-auth-token"]

def passwordKeys : Pattern UInt16 := .anyOf [word "password", word "passwd", word "pwd"]

def awsKeys : Pattern UInt16 := .anyOf [word "AKIA", word "aws_access_key_id", word "aws_secret_access_key"]

def oauthKeys : Pattern UInt16 := .both (.anyOf [word "oauth", word "refresh"]) (.both dash (word "token"))

/-- `(?:mongodb|mysql|postgres|postgresql)[\w+:.]*:\/\/[^\s"']+` -/
def connectionString : Pattern UInt16 :=
  .both (.anyOf [word "mongodb", word "mysql", word "postgres", word "postgresql"])
    (.both (.repeated fun u => isWord u || oneOf "+:." u)
      (.both (exactly "://") (.some fun u => !isSpace u && !oneOf "\"'" u)))

def base64Url (u : UInt16) : Bool := isWord u || oneOf "-" u

/-- `eyJ[A-Za-z0-9_-]+\.eyJ[A-Za-z0-9_-]+\.[A-Za-z0-9_-]+` -/
def jwt : Pattern UInt16 :=
  .both (exactly "eyJ") (.both (.some base64Url) (.both (exactly ".eyJ") (.both (.some base64Url)
    (.both (exactly ".") (.some base64Url)))))

/-- `-----BEGIN (?:RSA |OPENSSH |ENCRYPTED )?PRIVATE KEY` -/
def privateKey : Pattern UInt16 :=
  .both (exactly "-----BEGIN ") (.both (.optional (.anyOf [exactly "RSA ", exactly "OPENSSH ", exactly "ENCRYPTED "]))
    (exactly "PRIVATE KEY"))

def fourDigits : Pattern UInt16 := .row [isDigit, isDigit, isDigit, isDigit]

def gap : Pattern UInt16 := .optional (.one fun u => isSpace u || oneOf "-" u)

/-- `\b\d{4}[-\s]?\d{4}[-\s]?\d{4}[-\s]?\d{4}\b` -/
def cardNumber : Pattern UInt16 :=
  .both .boundary (.both fourDigits (.both gap (.both fourDigits (.both gap (.both fourDigits (.both gap
    (.both fourDigits .boundary)))))))

def mailPart (u : UInt16) : Bool := isWord u || oneOf ".-" u

/-- `[\w.-]+@[\w.-]+\.\w+` -/
def mailAddress : Pattern UInt16 :=
  .both (.some mailPart) (.both (exactly "@") (.both (.some mailPart) (.both (exactly ".") (.some isWord))))

def secretPatterns : List (Pattern UInt16) :=
  [keyed apiKeys, keyed authorizationKeys, keyed passwordKeys, keyed awsKeys, connectionString, keyed oauthKeys, jwt,
    privateKey, cardNumber, mailAddress]

def redactedPlaceholder : Text := units "[REDACTED]"

/-- `redactSensitiveData` of a text; an empty one is returned as it is. -/
def redactSensitiveData (responseBody : Text) : Text :=
  if responseBody.isEmpty then responseBody
  else secretPatterns.foldl (fun redacted pattern => replaceAll isWord pattern redactedPlaceholder false redacted)
    responseBody

/-- `processResponseBody(responseBody, maxLength, redact)` -/
def processResponseBody (responseBody : Text) (maxLength : Nat) (redact : Bool) : Text :=
  if responseBody.isEmpty then responseBody
  else
    let processed := responseBody.take maxLength
    if redact then
      let redacted := redactSensitiveData processed
      if redacted.isEmpty then processed else redacted
    else processed

example : redactSensitiveData (units "password: hunter2") = units "[REDACTED]" := by decide

def secretNames : List String := ["api_key", "access_token", "token", "refresh_token", "password", "authorization"]

/-- JSON white space. -/
def spaces : Text := units " \t\n\r"

/-- Between the closing quote of a name and the opening quote of its value. -/
def separator (left right : Text) : Text := quote :: left ++ unit ':' :: right ++ [quote]

/-- The text before and after the characters of a string that is the value of a member. -/
structure MemberValue (name : String) (front back : Text) : Prop where
  before : ∃ document left right, (∀ u ∈ left ++ right, u ∈ spaces) ∧
    front = document ++ quote :: units name ++ separator left right
  behind : ∃ space mark rest, (∀ u ∈ space, u ∈ spaces) ∧ mark ∈ units ",\x7d" ∧
    back = quote :: space ++ mark :: rest

/-- A value without white space, quotes and the marks `,;}]`. -/
def Plain (value : Text) : Prop := ∀ u ∈ value, plain u = true

instance (value : Text) : Decidable (Plain value) := inferInstanceAs (Decidable (∀ u ∈ value, _))

/-- The truncation takes all of the value or nothing. -/
def Uncut (front value : Text) (maxLength : Nat) : Prop :=
  maxLength ≤ front.length ∨ front.length + value.length ≤ maxLength

/-- What stands between a name and the next member. -/
def neutral : Text := units "\": \t\n\r,\x7d"

/-- The text ends in neither white space nor a separator. -/
def Closed (text : Text) : Prop := ∃ last, text.getLast? = some last ∧ isSpace last = false ∧ oneOf ":=" last = false

/-- The text ends or goes on with a mark that is part of no secret. -/
def Opened (text : Text) : Prop := ∀ mark ∈ text.head?, mark ∈ neutral ∧ plain mark = false

/-- What may follow a value: the end of the truncated text, or a quote and what follows it. -/
def Tail (text : Text) : Prop := ∀ u ∈ text.head?, u = quote ∧ Opened text.tail

/-- A pattern whose matches cannot reach past the quotes around a value. -/
structure Local (r : Pattern UInt16) : Prop where
  solid : r.nullable = false
  foreign : ∀ u ∈ neutral, r.starts u = false
  wall : ∀ front back, Closed front ∨ Opened back → Wall isWord r front (quote :: back)

variable {key r : Pattern UInt16} {front back value text left right : Text} {before : Bool}
  {place : Bool × Text} {patterns : List (Pattern UInt16)}

theorem isWord_quote : isWord quote = false := by decide

/-- A key and its separator end in the separator or in white space. -/
theorem last_of_separated (member : place ∈ ends isWord (separated key) before text) (all : place.2 = []) :
    ¬ Closed text := by
  rintro ⟨last, ended, no_space, no_separator⟩
  rw [separated, ends] at member
  obtain ⟨colon, marked, spaced⟩ := List.mem_flatMap.mp member
  obtain ⟨padding, behind, -, blank⟩ := consumed_of_mem_repeatedEnds spaced
  rw [all, List.append_nil] at behind
  rw [ends] at marked
  obtain ⟨named, found, mark⟩ := List.mem_flatMap.mp marked
  obtain ⟨consumed, split, -⟩ := consumed_of_mem_ends found
  cases rest : named.2 with
  | nil =>
    rw [rest] at mark
    cases mark
  | cons c more =>
    rw [rest, ends] at mark
    split at mark
    · rename_i separator
      rw [List.mem_singleton.mp mark] at behind
      obtain rfl : more = padding := behind
      rw [split, rest, List.getLast?_append, List.getLast?_cons] at ended
      cases padded : more.getLast? with
      | none =>
        rw [padded] at ended
        obtain rfl : c = last := by simpa using ended
        rw [no_separator] at separator
        cases separator
      | some space =>
        rw [padded] at ended
        obtain rfl : space = last := by simpa using ended
        have white := blank space (List.mem_of_getLast? padded)
        rw [no_space] at white
        cases white
    · cases mark

theorem plain_quote : plain quote = false := by decide

theorem some_plain_avoids : (Pattern.some plain).avoids quote = true := by decide

/-- A value in quotes or without them ends at the next quote. -/
theorem secretValue_extend (opened : text ≠ [] ∨ Opened back) :
    ends isWord secretValue before (text ++ quote :: back) =
      extend (quote :: back) (ends isWord secretValue before text) := by
  have later (word : Bool) (more : Text) : ends isWord (.some plain) word (more ++ quote :: back) =
      extend (quote :: back) (ends isWord (.some plain) word more) :=
    ends_append some_plain_avoids isWord_quote more back
  cases text with
  | cons c rest =>
    have unquoted := later before (c :: rest)
    rw [List.cons_append] at unquoted ⊢
    rw [secretValue, ends, ends, ends, ends, ends, ends]
    split
    · simp only [List.flatMap_append, List.flatMap_cons, List.flatMap_nil, List.append_nil]
      rw [later, unquoted, extend, extend, extend, List.map_append]
    · simp only [List.nil_append, List.flatMap_cons, List.flatMap_nil, List.append_nil]
      exact unquoted
  | nil =>
    have front := opened.resolve_left fun some_text => some_text rfl
    have quoted : ends isWord (.some plain) (isWord quote) back = [] := by
      cases back with
      | nil => rfl
      | cons mark rest => exact ends_eq_nil rfl (by simpa [Pattern.some, Pattern.starts, Pattern.nullable] using (front mark rfl).2) rest
    have unquoted : ends isWord (.some plain) before (quote :: back) = [] :=
      ends_eq_nil rfl (by simp [Pattern.some, Pattern.starts, Pattern.nullable, plain_quote]) back
    have nothing : ends isWord secretValue before [] = [] := rfl
    rw [nothing, List.nil_append, secretValue, ends, ends, ends]
    split
    · simp [quoted, unquoted, extend]
    · simp [unquoted, extend]

/-- A secret with a key in front ends at the closing quote of a name or a value. -/
theorem wall_keyed (avoided : key.avoids quote = true) (apart : Closed front ∨ Opened back) :
    Wall isWord (keyed key) front (quote :: back) := by
  intro before text some_text inside
  have separated_avoids : (separated key).avoids quote = true := by
    have marks : (Pattern.both (.both (.repeated isSpace) (.one (oneOf ":="))) (.repeated isSpace)).avoids quote = true := by
      decide
    simp only [separated, Pattern.avoids, avoided] at marks ⊢
    simpa [and_assoc] using marks
  rw [keyed, ends, ends, ends_append separated_avoids isWord_quote, extend, extend, List.flatMap_map, List.map_flatMap]
  refine List.flatMap_congr fun place member => secretValue_extend ?_
  rcases apart with closed | opened
  · left
    intro all
    refine last_of_separated member all ?_
    obtain ⟨last, ended, marks⟩ := closed
    obtain ⟨earlier, rfl⟩ := inside
    refine ⟨last, ?_, marks⟩
    rw [List.getLast?_append] at ended
    cases same : text.getLast? with
    | none => exact absurd (List.getLast?_eq_none_iff.mp same) some_text
    | some other => simpa [same] using ended
  · exact .inr opened

theorem local_keyed (solid : key.nullable = false) (foreign : ∀ u ∈ neutral, key.starts u = false)
    (avoided : key.avoids quote = true) : Local (keyed key) := by
  refine ⟨?_, fun u member => ?_, fun front back apart => wall_keyed avoided apart⟩
  · simp [keyed, separated, Pattern.nullable, solid]
  · simp [keyed, separated, Pattern.starts, Pattern.nullable, solid, foreign u member]

theorem local_of_avoids (solid : r.nullable = false) (foreign : ∀ u ∈ neutral, r.starts u = false)
    (avoided : r.avoids quote = true) : Local r :=
  ⟨solid, foreign, fun _ back _ _ text _ _ => ends_append avoided isWord_quote text back⟩

theorem secretPatterns_local : ∀ r ∈ secretPatterns, Local r := by
  have keys : ∀ key ∈ [apiKeys, authorizationKeys, passwordKeys, awsKeys, oauthKeys], key.nullable = false ∧
      (∀ u ∈ neutral, key.starts u = false) ∧ key.avoids quote = true := by decide
  have others : ∀ r ∈ [connectionString, jwt, privateKey, cardNumber, mailAddress], r.nullable = false ∧
      (∀ u ∈ neutral, r.starts u = false) ∧ r.avoids quote = true := by decide
  have of_key (key : Pattern UInt16)
      (listed : key ∈ [apiKeys, authorizationKeys, passwordKeys, awsKeys, oauthKeys]) : Local (keyed key) := by
    obtain ⟨solid, foreign, avoided⟩ := keys key listed
    exact local_keyed solid foreign avoided
  have of_other (r : Pattern UInt16)
      (listed : r ∈ [connectionString, jwt, privateKey, cardNumber, mailAddress]) : Local r := by
    obtain ⟨solid, foreign, avoided⟩ := others r listed
    exact local_of_avoids solid foreign avoided
  intro r member
  simp only [secretPatterns, List.mem_cons, List.not_mem_nil, or_false] at member
  rcases member with rfl | rfl | rfl | rfl | rfl | rfl | rfl | rfl | rfl | rfl
  · exact of_key _ (by simp)
  · exact of_key _ (by simp)
  · exact of_key _ (by simp)
  · exact of_key _ (by simp)
  · exact of_other _ (by simp)
  · exact of_key _ (by simp)
  · exact of_other _ (by simp)
  · exact of_other _ (by simp)
  · exact of_other _ (by simp)
  · exact of_other _ (by simp)

/-- One pattern of the loop. -/
def redactOne (redacted : Text) (pattern : Pattern UInt16) : Text :=
  replaceAll isWord pattern redactedPlaceholder false redacted

/-- The text in front of a value stays closed when parts of it are replaced. -/
theorem closed_redactOne (solid : r.nullable = false) (closed : Closed text) : Closed (redactOne text r) := by
  obtain ⟨last, ended, marks⟩ := closed
  have some_text : text ≠ [] := by
    rintro rfl
    cases ended
  have some_new : redactedPlaceholder ≠ [] := by decide
  rcases @getLast?_replaceAll _ isWord _ _ _ false solid some_text some_new with same | new
  · exact ⟨last, same.trans ended, marks⟩
  · refine ⟨unit ']', new.trans ?_, ?_⟩ <;> decide

theorem replaceAll_quote (local_r : Local r) (before : Bool) (rest : Text) :
    replaceAll isWord r redactedPlaceholder before (quote :: rest) = quote :: redactOne rest r :=
  replaceAll_cons_of_foreign local_r.solid (local_r.foreign quote (by decide)) rest

/-- What follows a value is redacted by itself. -/
theorem tail_redactOne (local_r : Local r) (tail : Tail text) (before : Bool) :
    Tail (redactOne text r) ∧ replaceAll isWord r redactedPlaceholder before text = redactOne text r := by
  cases text with
  | nil => exact ⟨tail, rfl⟩
  | cons u rest =>
    obtain ⟨rfl, opened⟩ := tail u rfl
    have kept := replaceAll_quote local_r false rest
    refine ⟨?_, (replaceAll_quote local_r before rest).trans kept.symm⟩
    rw [redactOne, kept]
    rintro u ⟨⟩
    refine ⟨rfl, fun mark first => ?_⟩
    cases rest with
    | nil => cases first
    | cons other more =>
      have marked := opened other rfl
      rw [List.tail_cons, redactOne, replaceAll_cons_of_foreign local_r.solid (local_r.foreign other marked.1)] at first
      obtain rfl := Option.some.inj first
      exact marked

/-- One replacement works on the text before a value, the value and the text behind it apart. -/
theorem redactOne_append (local_r : Local r) (closed : Closed front) (spaced : ∀ u ∈ left ++ right, u ∈ spaces)
    (tail : Tail back) (value : Text) : redactOne (front ++ separator left right ++ value ++ back) r =
      redactOne front r ++ separator left right ++ redactOne value r ++ redactOne back r := by
  have first : Wall isWord r front (separator left right ++ value ++ back) := by
    rw [separator, List.cons_append, List.cons_append]
    exact local_r.wall _ _ (.inl closed)
  have last : Wall isWord r value back := by
    cases back with
    | nil => exact Wall.nil _ _ _
    | cons u rest =>
      obtain ⟨rfl, opened⟩ := tail u rfl
      exact local_r.wall _ _ (.inr opened)
  have foreign : ∀ u ∈ separator left right, r.starts u = false := by
    have listed : ∀ u ∈ spaces, u ∈ neutral := by decide
    intro u member
    refine local_r.foreign u ?_
    simp only [separator, List.mem_append, List.mem_cons, List.not_mem_nil, or_false] at member
    rcases member with ((rfl | inside) | rfl | inside) | rfl
    · decide
    · exact listed u (spaced u (List.mem_append_left _ inside))
    · decide
    · exact listed u (spaced u (List.mem_append_right _ inside))
    · decide
  have after_separator (before : Bool) : wordAfter isWord before (separator left right) = false := by
    rw [separator, wordAfter_concat]
    exact isWord_quote
  rw [redactOne, List.append_assoc, List.append_assoc, ← List.append_assoc (separator left right), replaceAll_append local_r.solid first,
    List.append_assoc, replaceAll_append_of_foreign local_r.solid foreign, after_separator,
    replaceAll_append local_r.solid last, (tail_redactOne local_r tail _).2]
  simp only [redactOne, List.append_assoc]

/-- The whole loop does. -/
theorem foldl_redactOne (locals : ∀ r ∈ patterns, Local r) (closed : Closed front)
    (spaced : ∀ u ∈ left ++ right, u ∈ spaces) (tail : Tail back) (value : Text) :
    patterns.foldl redactOne (front ++ separator left right ++ value ++ back) =
      patterns.foldl redactOne front ++ separator left right ++ patterns.foldl redactOne value ++
        patterns.foldl redactOne back := by
  induction patterns generalizing front value back with
  | nil => rfl
  | cons r rest ih =>
    have local_r := locals r List.mem_cons_self
    rw [List.foldl_cons, redactOne_append local_r closed spaced tail]
    exact ih (fun other member => locals other (List.mem_cons_of_mem _ member))
      (closed_redactOne local_r.solid closed) (tail_redactOne local_r tail false).1 _

theorem redactSensitiveData_eq (text : Text) : redactSensitiveData text = secretPatterns.foldl redactOne text := by
  rw [redactSensitiveData]
  split
  · rename_i empty
    rw [List.isEmpty_iff.mp empty]
    have nothing (patterns : List (Pattern UInt16)) : patterns.foldl redactOne [] = [] := by
      induction patterns with
      | nil => rfl
      | cons r rest ih => exact ih
    exact (nothing _).symm
  · rfl

theorem tail_take {name : String} (member : MemberValue name front back) (kept : Nat) : Tail (back.take kept) := by
  obtain ⟨space, mark, rest, blank, ending, rfl⟩ := member.behind
  cases kept with
  | zero =>
    intro u impossible
    cases impossible
  | succ kept =>
    rintro u ⟨⟩
    refine ⟨rfl, fun first found => ?_⟩
    have marks : ∀ u ∈ spaces ++ units ",\x7d", u ∈ neutral ∧ plain u = false := by decide
    refine marks first ?_
    rw [List.cons_append, List.take_succ_cons, List.tail_cons] at found
    have inside := List.mem_of_mem_head? found
    cases kept with
    | zero => cases inside
    | succ kept =>
      cases space with
      | nil =>
        obtain rfl : mark = first := by simpa using found
        exact List.mem_append_right _ ending
      | cons u more =>
        obtain rfl : u = first := by simpa using found
        exact List.mem_append_left _ (blank u List.mem_cons_self)

/-- Every name ends in a letter. -/
theorem closed_name {name : String} (secret : name ∈ secretNames) (document : Text) :
    Closed (document ++ quote :: units name) := by
  have ends : ∀ name ∈ secretNames, ∃ last ∈ (units name).getLast?, isSpace last = false ∧ oneOf ":=" last = false := by
    decide
  obtain ⟨last, ended, marks⟩ := ends name secret
  refine ⟨last, ?_, marks⟩
  rw [List.getLast?_append, List.getLast?_cons, ended]
  rfl

/-- A secret member's value is stored as it redacts alone, whatever its name. -/
theorem processResponseBody_member {name : String} (secret : name ∈ secretNames) (member : MemberValue name front back)
    {maxLength : Nat} (inside : front.length + value.length ≤ maxLength) :
    processResponseBody (front ++ value ++ back) maxLength true = redactSensitiveData front ++
      redactSensitiveData value ++ redactSensitiveData (back.take (maxLength - (front.length + value.length))) := by
  obtain ⟨document, left, right, spaced, rfl⟩ := member.before
  set start := document ++ quote :: units name with named
  have closed : Closed start := closed_name secret document
  have tail := tail_take member (maxLength - ((start ++ separator left right).length + value.length))
  have cut : (start ++ separator left right ++ value ++ back).take maxLength = start ++ separator left right ++ value ++
      back.take (maxLength - ((start ++ separator left right).length + value.length)) := by
    rw [List.take_append, List.take_of_length_le (by rw [List.length_append]; exact inside), List.length_append]
  have front_alone := @foldl_redactOne _ [] _ _ _ secretPatterns_local closed spaced
    (fun u impossible => by cases impossible) []
  have nothing : secretPatterns.foldl redactOne [] = [] := by
    rw [← redactSensitiveData_eq]
    rfl
  have all := foldl_redactOne secretPatterns_local closed spaced tail value
  rw [nothing, List.append_nil, List.append_nil, List.append_nil, List.append_nil] at front_alone
  have some_text : (start ++ separator left right ++ value ++ back).isEmpty = false := by
    rw [separator]
    simp
  have some_left : (secretPatterns.foldl redactOne start ++ separator left right ++ secretPatterns.foldl redactOne value ++
      secretPatterns.foldl redactOne (back.take
        (maxLength - ((start ++ separator left right).length + value.length)))).isEmpty = false := by
    rw [separator]
    simp
  rw [processResponseBody, some_text, if_neg Bool.false_ne_true]
  simp only [if_true, cut, redactSensitiveData_eq, all, some_left, if_neg Bool.false_ne_true, front_alone]

theorem tail_foldl (locals : ∀ r ∈ patterns, Local r) (tail : Tail text) : Tail (patterns.foldl redactOne text) := by
  induction patterns generalizing text with
  | nil => exact tail
  | cons r rest ih =>
    exact ih (fun other listed => locals other (List.mem_cons_of_mem _ listed))
      (tail_redactOne (locals r List.mem_cons_self) tail false).1

/-- The characters of a redacted text come from the text or the placeholder. -/
theorem mem_of_mem_foldl (locals : ∀ r ∈ patterns, Local r) {u : UInt16} (member : u ∈ patterns.foldl redactOne text) :
    u ∈ text ∨ u ∈ redactedPlaceholder := by
  induction patterns generalizing text with
  | nil => exact .inl member
  | cons r rest ih =>
    rcases ih (fun other listed => locals other (List.mem_cons_of_mem _ listed)) member with old | new
    · exact mem_of_mem_replaceAll (locals r List.mem_cons_self).solid old
    · exact .inr new

theorem takeWhile_append_tail {value tail : Text} (unquoted : ∀ u ∈ value, u ≠ quote) (quoted : ∀ u ∈ tail.head?, u = quote) :
    (value ++ tail).takeWhile (· ≠ quote) = value := by
  rw [List.takeWhile_append_of_pos fun u member => by simpa using unquoted u member]
  cases tail with
  | nil => simp
  | cons u rest =>
    rw [List.takeWhile_cons_of_neg (by simpa using quoted u rfl), List.append_nil]

/-- Two documents that differ in the value alone are stored as one text exactly when the truncation
leaves out the value, or both values redact to the same by themselves and so do the cut ends. -/
theorem stored_eq_iff {name : String} {other : Text} {maxLength : Nat} (secret : name ∈ secretNames)
    (member : MemberValue name front back) (plainly : Plain value) (plainly' : Plain other)
    (uncut : Uncut front value maxLength) (uncut' : Uncut front other maxLength) :
    processResponseBody (front ++ value ++ back) maxLength true =
        processResponseBody (front ++ other ++ back) maxLength true ↔
      maxLength ≤ front.length ∨ redactSensitiveData value = redactSensitiveData other ∧
        redactSensitiveData (back.take (maxLength - (front.length + value.length))) =
          redactSensitiveData (back.take (maxLength - (front.length + other.length))) := by
  by_cases outside : maxLength ≤ front.length
  · refine iff_of_true ?_ (.inl outside)
    obtain ⟨document, left, right, -, rfl⟩ := member.before
    have some_text (value : Text) :
        (document ++ quote :: units name ++ separator left right ++ value ++ back).isEmpty = false := by simp
    have cut (value : Text) : (document ++ quote :: units name ++ separator left right ++ value ++ back).take maxLength =
        (document ++ quote :: units name ++ separator left right).take maxLength := by
      rw [List.append_assoc, List.take_append_of_le_length outside]
    rw [processResponseBody, processResponseBody, some_text, some_text, cut, cut, if_neg Bool.false_ne_true,
      if_neg Bool.false_ne_true]
  · have inside := uncut.resolve_left outside
    have inside' := uncut'.resolve_left outside
    rw [processResponseBody_member secret member inside, processResponseBody_member secret member inside',
      List.append_assoc, List.append_assoc, List.append_cancel_left_eq, or_iff_right outside]
    constructor
    · intro same
      have unquoted {value : Text} (plainly : Plain value) : ∀ u ∈ redactSensitiveData value, u ≠ quote := by
        rintro u listed rfl
        rw [redactSensitiveData_eq] at listed
        rcases mem_of_mem_foldl secretPatterns_local listed with old | new
        · have no_quote := plainly quote old
          rw [plain_quote] at no_quote
          cases no_quote
        · exact absurd new (by decide)
      have quoted (kept : Nat) : ∀ u ∈ (redactSensitiveData (back.take kept)).head?, u = quote := by
        rw [redactSensitiveData_eq]
        exact fun u first => (tail_foldl secretPatterns_local (tail_take member kept) u first).1
      have values := congrArg (fun text => text.takeWhile (· ≠ quote)) same
      rw [takeWhile_append_tail (unquoted plainly) (quoted _), takeWhile_append_tail (unquoted plainly') (quoted _)] at values
      rw [values, List.append_cancel_left_eq] at same
      exact ⟨values, same⟩
    · rintro ⟨values, tails⟩
      rw [values, tails]

/-- The account document up to the password, and behind it. -/
def accountFront : Text := units "\x7b\"user\": \x7b\"password\": \""

def accountBack : Text := units "\"\x7d\x7d"

theorem account_member : MemberValue "password" accountFront accountBack := by
  constructor
  · exact ⟨units "\x7b\"user\": \x7b", [], units " ", by decide, by decide⟩
  · exact ⟨[], unit '\x7d', units "\x7d", by decide, by decide, by decide⟩

/-- Two connection strings differ only in what their own pattern matches. -/
theorem connectionStrings_stored :
    processResponseBody (accountFront ++ units "mysql://db/a" ++ accountBack) 500 true =
      processResponseBody (accountFront ++ units "mysql://db/b" ++ accountBack) 500 true :=
  (stored_eq_iff (by decide) account_member (by decide) (by decide) (.inr (by decide))
    (.inr (by decide))).mpr (.inr (by decide))

/-- A password is stored as it is. -/
theorem passwords_stored : ¬ (processResponseBody (accountFront ++ units "hunter2" ++ accountBack) 500 true =
    processResponseBody (accountFront ++ units "hunter3" ++ accountBack) 500 true) := by
  decide

end Octraban.Redaction
