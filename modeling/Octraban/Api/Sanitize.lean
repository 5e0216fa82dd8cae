import Octraban.Api.SanitizeText
import Octraban.Core.Partial
import Octraban.Core.Properties

/-! The sanitizing of whole request values, their keys and texts at every depth. -/
namespace Octraban.Sanitize

open CodeUnits Properties

def protoPollutionKeys : List Text := [protoKey, units "constructor", units "prototype"]

def maxArrayLen : Nat := 100

def maxObjectDepth : Nat := 10

/-- One turn of the loop in `sanitizeObject`. -/
def addEntry (sanitize : Value → Option Value) (result : Object) (entry : Text × Value) : Option Object :=
  if entry.1 ∈ protoPollutionKeys then some result
  else do
    let safeKey ← sanitizeString entry.1
    let value ← sanitize entry.2
    return result.assign safeKey value

/-- `sanitizeObject` with the levels that are left; nothing when it throws. -/
def sanitizeLevels : Nat → Value → Option Value
  | 0, obj => some obj
  | _ + 1, .text text => (sanitizeString text).map .text
  | levels + 1, .array items => ((items.take maxArrayLen).mapM (sanitizeLevels levels)).map .array
  | levels + 1, .object _ entries => (entries.foldlM (addEntry (sanitizeLevels levels)) .empty).map Object.value
  | _ + 1, obj => some obj

def sanitizeObject (obj : Value) (depth : Nat) : Option Value := sanitizeLevels (maxObjectDepth + 1 - depth) obj

/-- No text and no key at any depth has a forbidden pattern, and no key is a forbidden one. -/
inductive Clean : Value → Prop where
  | null : Clean .null
  | boolean (value : Bool) : Clean (.boolean value)
  | number (x : JavaScript.Number) : Clean (.number x)
  | text (text : Text) (clean : CleanText text) : Clean (.text text)
  | array (items : List Value) (each : ∀ item ∈ items, Clean item) : Clean (.array items)
  | object (prototype : Option Value) (entries : List (Text × Value))
      (keys : ∀ entry ∈ entries, CleanText entry.1 ∧ entry.1 ∉ protoPollutionKeys)
      (each : ∀ entry ∈ entries, Clean entry.2) : Clean (.object prototype entries)

/-- A later entry takes the key. -/
def Overwritten (key : Text) (later : List (Text × Value)) : Prop :=
  ∃ other ∈ later, other.1 ∉ protoPollutionKeys ∧ sanitizeString other.1 = some key

/-- An entry that becomes `__proto__` has no value for a prototype; any other is overwritten, or its
key settles to an allowed one and its value settles. -/
def EntrySettles (settles : Value → Prop) (entry : Text × Value) (later : List (Text × Value)) : Prop :=
  ∀ safeKey, sanitizeString entry.1 = some safeKey →
    if safeKey = protoKey then entry.2.isPrototype = false
    else Overwritten safeKey later ∨ safeKey ∉ protoPollutionKeys ∧ Settled entry.1 ∧ settles entry.2

def EntriesSettle (settles : Value → Prop) : List (Text × Value) → Prop
  | [] => True
  | entry :: later =>
    (entry.1 ∉ protoPollutionKeys → EntrySettles settles entry later) ∧ EntriesSettle settles later

/-- The condition on a value with so many levels left; below them it must be clean by itself. -/
def Settles : Nat → Value → Prop
  | 0, value => Clean value
  | _ + 1, .text text => Settled text
  | levels + 1, .array items => ∀ item ∈ items.take maxArrayLen, Settles levels item
  | levels + 1, .object _ entries => EntriesSettle (Settles levels) entries
  | _ + 1, _ => True

/-- Clean, and sanitized again to itself. -/
def Sanitized (levels : Nat) (value : Value) : Prop := Clean value ∧ sanitizeLevels levels value = some value

variable {sanitize : Value → Option Value} {settles : Value → Prop} {entries rest : List (Text × Value)}
  {entry : Text × Value} {result made : Object} {key : Text} {obj value : Value} {levels : Nat}

theorem addEntry_eq_some (allowed : entry.1 ∉ protoPollutionKeys) : addEntry sanitize result entry = some made ↔
    ∃ safeKey value, sanitizeString entry.1 = some safeKey ∧ sanitize entry.2 = some value ∧
      result.assign safeKey value = made := by
  rw [addEntry, if_neg allowed]
  simp only [Option.bind_eq_bind, Option.bind_eq_some_iff, Option.pure_def, Option.some_inj]
  constructor
  · rintro ⟨safeKey, named, value, cleaned, same⟩
    exact ⟨safeKey, value, named, cleaned, same⟩
  · rintro ⟨safeKey, value, named, cleaned, same⟩
    exact ⟨safeKey, named, value, cleaned, same⟩

theorem foldlM_cons_eq_some : (entry :: rest).foldlM (addEntry sanitize) result = some made ↔
    ∃ middle, addEntry sanitize result entry = some middle ∧ rest.foldlM (addEntry sanitize) middle = some made := by
  rw [List.foldlM_cons, Option.bind_eq_bind, Option.bind_eq_some_iff]

theorem foldlM_skip (forbidden : entry.1 ∈ protoPollutionKeys) :
    (entry :: rest).foldlM (addEntry sanitize) result = rest.foldlM (addEntry sanitize) result := by
  rw [List.foldlM_cons, addEntry, if_pos forbidden]
  rfl

theorem isSome_foldlM (made_of : entries.foldlM (addEntry sanitize) result = some made)
    (set : result.prototype.isSome) : made.prototype.isSome := by
  induction entries generalizing result with
  | nil => exact Option.some.inj made_of ▸ set
  | cons entry rest ih =>
    by_cases forbidden : entry.1 ∈ protoPollutionKeys
    · exact ih (by rwa [foldlM_skip forbidden] at made_of) set
    · obtain ⟨middle, turn, later⟩ := foldlM_cons_eq_some.mp made_of
      obtain ⟨safeKey, value, -, -, rfl⟩ := (addEntry_eq_some forbidden).mp turn
      exact ih later (isSome_assign set safeKey value)

theorem overwritten_cons : Overwritten key (entry :: rest) ↔
    entry.1 ∉ protoPollutionKeys ∧ sanitizeString entry.1 = some key ∨ Overwritten key rest := by
  simp only [Overwritten, List.exists_mem_cons_iff]

/-- An entry of the result is as it should be. -/
def Good (sanitize : Value → Option Value) (entry : Text × Value) : Prop :=
  entry.1 ∉ protoPollutionKeys ∧ Complete entry.1 ∧ Clean entry.2 ∧ sanitize entry.2 = some entry.2

/-- Along the loop: what the rest of the entries must be for the object to end up plain and good. -/
theorem foldlM_good_iff (each : ∀ obj value, sanitize obj = some value →
      (Clean value ∧ sanitize value = some value ↔ settles obj) ∧ value.isPrototype = obj.isPrototype)
    (made_of : entries.foldlM (addEntry sanitize) result = some made) (plain : result.prototype = none)
    (unowned : protoKey ∉ result.own.keys) :
    (made.prototype = none ∧ ∀ entry ∈ made.own.entries, Good sanitize entry) ↔
      EntriesSettle settles entries ∧ ∀ entry ∈ result.own.entries, ¬ Overwritten entry.1 entries → Good sanitize entry := by
  induction entries generalizing result with
  | nil =>
    obtain rfl := Option.some.inj made_of
    simp [EntriesSettle, plain, Overwritten]
  | cons entry rest ih =>
    by_cases forbidden : entry.1 ∈ protoPollutionKeys
    · rw [foldlM_skip forbidden] at made_of
      rw [ih made_of plain unowned]
      simp [EntriesSettle, forbidden, overwritten_cons]
    · obtain ⟨middle, turn, later⟩ := foldlM_cons_eq_some.mp made_of
      obtain ⟨safeKey, value, named, cleaned, rfl⟩ := (addEntry_eq_some forbidden).mp turn
      obtain ⟨settled, same_kind⟩ := each entry.2 value cleaned
      have kept : EntrySettles settles entry rest ↔ if safeKey = protoKey then entry.2.isPrototype = false
          else Overwritten safeKey rest ∨ safeKey ∉ protoPollutionKeys ∧ Settled entry.1 ∧ settles entry.2 := by
        simp [EntrySettles, named]
      have taken (key : Text) : Overwritten key (entry :: rest) ↔ key = safeKey ∨ Overwritten key rest := by
        rw [overwritten_cons, named]
        simp [forbidden, eq_comm]
      simp only [EntriesSettle, forbidden, not_false_eq_true, true_implies, kept, taken]
      by_cases proto : safeKey = protoKey
      · subst proto
        rw [assign_protoKey plain unowned] at later
        rw [if_pos rfl, ← same_kind]
        cases kind : value.isPrototype with
        | true =>
          rw [kind, if_pos rfl] at later
          refine iff_of_false (fun both => ?_) (by simp)
          have set := isSome_foldlM later rfl
          rw [both.1] at set
          cases set
        | false =>
          rw [kind, if_neg (by simp)] at later
          rw [ih later plain unowned]
          have free : ∀ entry ∈ result.own.entries, entry.1 ≠ protoKey := by
            intro entry member same
            exact unowned (same ▸ List.mem_map_of_mem member)
          simp only [true_and]
          refine and_congr_right fun _ => forall₂_congr fun entry member => ?_
          rw [or_iff_right (free entry member)]
      · rw [assign_of_ne proto] at later
        rw [if_neg proto]
        have unowned' : protoKey ∉ (result.own.set safeKey value).keys := by
          rw [OrderedMap.keys_set, Ordered.mem_add]
          rintro (old | same)
          · exact unowned old
          · exact proto same.symm
        have good : Good sanitize (safeKey, value) ↔
            safeKey ∉ protoPollutionKeys ∧ Settled entry.1 ∧ settles entry.2 := by
          rw [Good, complete_iff_settled named, settled]
        rw [ih later plain unowned', OrderedMap.forall_mem_set, good]
        constructor
        · rintro ⟨behind, new, old⟩
          refine ⟨⟨?_, behind⟩, fun entry member free => ?_⟩
          · by_cases again : Overwritten safeKey rest
            · exact .inl again
            · exact .inr (new again)
          · rw [not_or] at free
            exact old entry member free.1 free.2
        · rintro ⟨⟨new, behind⟩, old⟩
          refine ⟨behind, fun free => new.resolve_left free, fun entry member other free => old entry member ?_⟩
          exact not_or.mpr ⟨other, free⟩

/-- Keys that are stripped already, each for the first time. -/
def Fixed (own : OrderedMap Text Value) (entries : List (Text × Value)) : Prop :=
  (∀ entry ∈ entries, entry.1 ∉ protoPollutionKeys ∧ sanitizeString entry.1 = some entry.1) ∧
    (own.keys ++ entries.map Prod.fst).Nodup

theorem Fixed.cons (fixed : Fixed result.own (entry :: rest)) (value : Value) :
    entry.1 ∉ protoPollutionKeys ∧ sanitizeString entry.1 = some entry.1 ∧
      (result.assign entry.1 value).prototype = result.prototype ∧
      (result.assign entry.1 value).own.entries = result.own.entries ++ [(entry.1, value)] ∧
      Fixed (result.assign entry.1 value).own rest := by
  obtain ⟨each, nodup⟩ := fixed
  obtain ⟨⟨allowed, same⟩, each⟩ := List.forall_mem_cons.mp each
  have other : entry.1 ≠ protoKey := fun proto => allowed (proto ▸ List.mem_cons_self)
  obtain ⟨prototype, grown, fresh⟩ := assign_of_fresh nodup other value
  exact ⟨allowed, same, prototype, grown, each, fresh⟩

/-- Entries with such keys keep them, and each of their values is sanitized. -/
theorem foldlM_fixed (fixed : Fixed result.own entries) (made_of : entries.foldlM (addEntry sanitize) result = some made) :
    made.prototype = result.prototype ∧ ∃ later,
      List.Forall₂ (fun old new => new.1 = old.1 ∧ sanitize old.2 = some new.2) entries later ∧
      made.own.entries = result.own.entries ++ later := by
  induction entries generalizing result with
  | nil =>
    obtain rfl := Option.some.inj made_of
    exact ⟨rfl, [], .nil, (List.append_nil _).symm⟩
  | cons entry rest ih =>
    obtain ⟨middle, turn, later⟩ := foldlM_cons_eq_some.mp made_of
    obtain ⟨safeKey, value, named, cleaned, rfl⟩ := (addEntry_eq_some (fixed.1 entry List.mem_cons_self).1).mp turn
    obtain ⟨-, same, prototype, grown, fixed⟩ := fixed.cons value
    obtain rfl := Option.some.inj (same.symm.trans named)
    obtain ⟨prototype', tail, related, grown'⟩ := ih fixed later
    refine ⟨prototype'.trans prototype, (entry.1, value) :: tail, .cons ⟨rfl, cleaned⟩ related, ?_⟩
    rw [grown', grown, List.append_assoc]
    rfl

theorem foldlM_good (fixed : Fixed result.own entries) (cleaned : ∀ entry ∈ entries, sanitize entry.2 = some entry.2) :
    ∃ made, entries.foldlM (addEntry sanitize) result = some made ∧ made.prototype = result.prototype ∧
      made.own.entries = result.own.entries ++ entries := by
  induction entries generalizing result with
  | nil => exact ⟨result, rfl, rfl, (List.append_nil _).symm⟩
  | cons entry rest ih =>
    obtain ⟨first, cleaned⟩ := List.forall_mem_cons.mp cleaned
    obtain ⟨allowed, same, prototype, grown, fixed⟩ := fixed.cons entry.2
    obtain ⟨made, later, prototype', grown'⟩ := ih fixed cleaned
    have turn := (@addEntry_eq_some sanitize entry result _ allowed).mpr ⟨_, _, same, first, rfl⟩
    refine ⟨made, foldlM_cons_eq_some.mpr ⟨_, turn, later⟩, prototype'.trans prototype, ?_⟩
    rw [grown', grown, List.append_assoc]
    rfl

/-- The keys of the result are stripped keys. -/
theorem mem_keys_foldlM (made_of : entries.foldlM (addEntry sanitize) result = some made) (member : key ∈ made.own.keys) :
    key ∈ result.own.keys ∨ ∃ entry ∈ entries, sanitizeString entry.1 = some key := by
  induction entries generalizing result with
  | nil => exact .inl (Option.some.inj made_of ▸ member)
  | cons entry rest ih =>
    by_cases forbidden : entry.1 ∈ protoPollutionKeys
    · rw [foldlM_skip forbidden] at made_of
      exact (ih made_of).imp_right fun ⟨other, inside, named⟩ => ⟨other, List.mem_cons_of_mem _ inside, named⟩
    · obtain ⟨middle, turn, later⟩ := foldlM_cons_eq_some.mp made_of
      obtain ⟨safeKey, value, named, -, rfl⟩ := (addEntry_eq_some forbidden).mp turn
      rcases ih later with old | ⟨other, inside, named⟩
      · have assigned : key ∈ result.own.keys ∨ key = safeKey := by
          rw [Object.assign] at old
          split at old
          · split at old
            · exact .inl old
            · exact .inl old
          · rw [OrderedMap.keys_set, Ordered.mem_add] at old
            exact old
        rcases assigned with old | rfl
        · exact .inl old
        · exact .inr ⟨entry, List.mem_cons_self, named⟩
      · exact .inr ⟨other, List.mem_cons_of_mem _ inside, named⟩

theorem sanitizeString_sublist {text value : Text} (returned : sanitizeString value = some text) : text.Sublist value := by
  obtain ⟨rfl, -⟩ := sanitizeString_eq_some.mp returned
  have cut := List.take_sublist maxStringLen (trim value)
  exact (stripHtml_sublist _).trans (cut.trans (trim_sublist value))

/-- Keys that all come out of keys of the same list are stripped already: the longest first. -/
theorem fixed_of_covered {keys : List Text}
    (covered : ∀ key ∈ keys, ∃ origin ∈ keys, sanitizeString origin = some key) :
    ∀ key ∈ keys, sanitizeString key = some key := by
  have bounded : ∃ bound, ∀ key ∈ keys, key.length ≤ bound :=
    ⟨(keys.map List.length).sum, fun key member => List.single_le_sum (by simp) _ (List.mem_map_of_mem member)⟩
  obtain ⟨bound, longest⟩ := bounded
  have step (n : Nat) : ∀ key ∈ keys, bound - key.length ≤ n → sanitizeString key = some key := by
    induction n with
    | zero =>
      intro key member all
      obtain ⟨origin, inside, named⟩ := covered key member
      have inner := sanitizeString_sublist named
      have same := inner.eq_of_length_le (by have := longest origin inside; omega)
      rwa [← same] at named
    | succ n ih =>
      intro key member all
      obtain ⟨origin, inside, named⟩ := covered key member
      have inner := sanitizeString_sublist named
      by_cases longer : origin.length ≤ key.length
      · rwa [← inner.eq_of_length_le longer] at named
      · have fixed := ih origin inside (by have := longest origin inside; omega)
        rwa [Option.some.inj (fixed.symm.trans named)] at fixed
  exact fun key member => step _ key member (le_refl _)

/-- An object of the code is complete when it is plain and each of its entries is good. -/
theorem sanitized_object_iff (made : Object) (levels : Nat) : Sanitized (levels + 1) made.value ↔
    made.prototype = none ∧ ∀ entry ∈ made.own.entries, Good (sanitizeLevels levels) entry := by
  set own := JavaScript.ordered arrayIndex made.own.entries with own_eq
  have perm : own.Perm made.own.entries := JavaScript.perm_ordered _ _
  have nodup : (own.map Prod.fst).Nodup := (perm.map Prod.fst).nodup_iff.mpr made.own.nodup
  have value_eq : made.value = .object made.prototype own := rfl
  have fixed_of (keys : ∀ entry ∈ own, entry.1 ∉ protoPollutionKeys ∧ sanitizeString entry.1 = some entry.1) :
      Fixed Object.empty.own own := ⟨keys, by simpa [Object.empty, OrderedMap.empty, OrderedMap.keys] using nodup⟩
  rw [Sanitized, value_eq, sanitizeLevels, Option.map_eq_some_iff]
  constructor
  · rintro ⟨clean, again, made_of, same⟩
    obtain ⟨prototype_eq, entries_eq⟩ : again.prototype = made.prototype ∧
        JavaScript.ordered arrayIndex again.own.entries = own := by
      rw [Object.value, Value.object.injEq] at same
      exact same
    obtain ⟨keys, values⟩ : (∀ entry ∈ own, CleanText entry.1 ∧ entry.1 ∉ protoPollutionKeys) ∧
        ∀ entry ∈ own, Clean entry.2 := by
      cases clean with
      | object _ _ keys each => exact ⟨keys, each⟩
    have same_entries (entry : Text × Value) : entry ∈ again.own.entries ↔ entry ∈ own := by
      rw [← entries_eq]
      exact (JavaScript.perm_ordered _ _).mem_iff.symm
    have stripped := @fixed_of_covered (own.map Prod.fst) fun key member => by
      obtain ⟨entry, inside, rfl⟩ := List.mem_map.mp member
      have owned : entry.1 ∈ again.own.keys := List.mem_map_of_mem ((same_entries entry).mpr inside)
      obtain ⟨origin, before, named⟩ := (mem_keys_foldlM made_of owned).resolve_left (by simp [Object.empty, OrderedMap.empty, OrderedMap.keys])
      exact ⟨origin.1, List.mem_map_of_mem before, named⟩
    have fixed := fixed_of fun entry member => ⟨(keys entry member).2, stripped _ (List.mem_map_of_mem member)⟩
    obtain ⟨plain, later, related, grown⟩ := foldlM_fixed fixed made_of
    refine ⟨prototype_eq ▸ plain, fun entry member => ?_⟩
    have member := perm.mem_iff.mpr member
    have named := stripped _ (List.mem_map_of_mem member)
    obtain ⟨new, inside, same_key, cleaned⟩ := Partial.exists_of_forall₂ related member
    have inside : new ∈ own := (same_entries new).mp (by rw [grown]; exact List.mem_append_right _ inside)
    rw [List.inj_on_of_nodup_map nodup inside member same_key] at cleaned
    exact ⟨(keys entry member).2, ⟨(keys entry member).1, named⟩, values entry member, cleaned⟩
  · rintro ⟨plain, good⟩
    have each (entry : Text × Value) (member : entry ∈ own) := good entry (perm.mem_iff.mp member)
    obtain ⟨again, made_of, prototype_eq, grown⟩ := foldlM_good
      (fixed_of fun entry member => ⟨(each entry member).1, (each entry member).2.1.2⟩)
      fun entry member => (each entry member).2.2.2
    refine ⟨.object _ _ (fun entry member => ⟨(each entry member).2.1.1, (each entry member).1⟩)
      fun entry member => (each entry member).2.2.1, again, made_of, ?_⟩
    have all : again.own.entries = own := grown
    rw [Object.value, prototype_eq, plain, all, own_eq, JavaScript.ordered_ordered]
    rfl

theorem isPrototype_sanitizeLevels (returned : sanitizeLevels levels obj = some value) :
    value.isPrototype = obj.isPrototype := by
  cases levels with
  | zero => rw [Option.some.inj returned]
  | succ levels =>
    cases obj with
    | null | boolean | number => rw [← Option.some.inj returned]
    | text | array | object =>
      rw [sanitizeLevels, Option.map_eq_some_iff] at returned
      obtain ⟨part, -, rfl⟩ := returned
      rfl

theorem sanitized_array_iff {items : List Value} (short : items.length ≤ maxArrayLen) :
    Sanitized (levels + 1) (.array items) ↔ ∀ item ∈ items, Sanitized levels item := by
  rw [Sanitized, sanitizeLevels, List.take_of_length_le short, Option.map_eq_some_iff]
  simp only [Value.array.injEq, exists_eq_right, Partial.mapM_eq_self_iff]
  constructor
  · rintro ⟨clean, again⟩ item member
    refine ⟨?_, again item member⟩
    cases clean with
    | array _ each => exact each item member
  · intro each
    exact ⟨.array items fun item member => (each item member).1, fun item member => (each item member).2⟩

/-- By the levels that are left: what an object, an array or a text sanitizes to is complete exactly
when it settles. -/
theorem sanitized_iff_settles (levels : Nat) {obj value : Value} (returned : sanitizeLevels levels obj = some value) :
    Sanitized levels value ↔ Settles levels obj := by
  induction levels generalizing obj value with
  | zero =>
    obtain rfl := Option.some.inj returned
    exact and_iff_left rfl
  | succ levels ih =>
    cases obj with
    | null =>
      obtain rfl := Option.some.inj returned
      exact iff_of_true ⟨.null, rfl⟩ trivial
    | boolean b =>
      obtain rfl := Option.some.inj returned
      exact iff_of_true ⟨.boolean b, rfl⟩ trivial
    | number x =>
      obtain rfl := Option.some.inj returned
      exact iff_of_true ⟨.number x, rfl⟩ trivial
    | text content =>
      obtain ⟨stripped, named, rfl⟩ := Option.map_eq_some_iff.mp returned
      have clean : Clean (.text stripped) ↔ CleanText stripped := by
        refine ⟨fun clean => ?_, .text stripped⟩
        cases clean with
        | text _ clean => exact clean
      rw [Settles, ← complete_iff_settled named, Sanitized, sanitizeLevels, Option.map_eq_some_iff, clean, Complete]
      simp
    | array items =>
      rw [sanitizeLevels, Option.map_eq_some_iff] at returned
      obtain ⟨stripped, each, rfl⟩ := returned
      have related := Partial.mapM_eq_some_iff.mp each
      have short : stripped.length ≤ maxArrayLen := by
        rw [← related.length_eq]
        exact List.length_take_le _ _
      rw [sanitized_array_iff short, Settles]
      exact Partial.forall_iff_of_forall₂ related fun item value => ih
    | object prototype entries =>
      rw [sanitizeLevels, Option.map_eq_some_iff] at returned
      obtain ⟨made, made_of, rfl⟩ := returned
      have each (obj value : Value) (returned : sanitizeLevels levels obj = some value) :
          (Clean value ∧ sanitizeLevels levels value = some value ↔ Settles levels obj) ∧
            value.isPrototype = obj.isPrototype := ⟨ih returned, isPrototype_sanitizeLevels returned⟩
      rw [sanitized_object_iff, foldlM_good_iff each made_of rfl (by simp [Object.empty, OrderedMap.empty, OrderedMap.keys]), Settles]
      exact and_iff_left fun entry impossible => (List.not_mem_nil impossible).elim

/-- What the request is sanitized to is clean and sanitized again to itself exactly when no text or
key that is kept joins a handler or bares white space, no key turns into a forbidden one, and what
lies below the last level is clean by itself. -/
theorem sanitized_object_iff_settles {obj value : Value} {depth : Nat} (returned : sanitizeObject obj depth = some value) :
    Clean value ∧ sanitizeObject value depth = some value ↔ Settles (maxObjectDepth + 1 - depth) obj :=
  sanitized_iff_settles _ returned

/-- A comment with a tag in it, and no name. -/
def comment : Value := .array [.text (units "<b>hello</b>"), .null]

theorem comment_sanitized : Clean (.array [.text (units "hello"), .null]) ∧
      sanitizeObject (.array [.text (units "hello"), .null]) 0 = some (.array [.text (units "hello"), .null]) ↔
    Settles 11 comment := by
  refine @sanitized_object_iff_settles comment _ 0 ?_
  have stripped : sanitizeString (units "<b>hello</b>") = some (units "hello") := by decide
  simp [comment, sanitizeObject, maxObjectDepth, sanitizeLevels, maxArrayLen, stripped]

/-- The deletion of one handler joins another one. -/
theorem handler_joined : ∃ value, sanitizeObject (.text (units "onclick onload==")) 0 = some value ∧
    ¬ (Clean value ∧ sanitizeObject value 0 = some value) := by
  have joined : sanitizeString (units "onclick onload==") = some (units "onclick =") := by decide
  refine ⟨.text (units "onclick ="), by simp [sanitizeObject, maxObjectDepth, sanitizeLevels, joined], fun ⟨clean, _⟩ => ?_⟩
  cases clean with
  | text _ clean =>
    have handler : ¬ CleanText (units "onclick =") := by decide
    exact handler clean

end Octraban.Sanitize
