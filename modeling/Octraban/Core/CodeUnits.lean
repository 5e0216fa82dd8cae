import Octraban.Core.JavaScript
import Octraban.Core.Regex

/-! Texts as lists of UTF-16 code units, and the character classes of their regular expressions. -/
namespace CodeUnits

open Regex

abbrev Text := List UInt16

instance lawfulText : LawfulBEq Text := inferInstance

/-- Only the units of the text are tried. -/
instance (priority := 1100) decidableForallMem {p : UInt16 → Prop} [DecidablePred p] (text : Text) : Decidable (∀ u ∈ text, p u) :=
  List.decidableBAll p text

def units (text : String) : Text := (JavaScript.utf16 text).map UInt16.ofNat

def unit (c : Char) : UInt16 := UInt16.ofNat c.toNat

def between (low high : Char) (u : UInt16) : Bool := unit low ≤ u && u ≤ unit high

/-- `\d` -/
def isDigit (u : UInt16) : Bool := between '0' '9' u

/-- `\w` -/
def isWord (u : UInt16) : Bool := between 'a' 'z' u || between 'A' 'Z' u || isDigit u || u = unit '_'

/-- `\s` -/
def isSpace (u : UInt16) : Bool := JavaScript.isWhitespace (Char.ofNat u.toNat)

def lower (u : UInt16) : UInt16 := if between 'A' 'Z' u then u + 32 else u

/-- `text.trim()` -/
def trim (text : Text) : Text := ((text.dropWhile isSpace).reverse.dropWhile isSpace).reverse

/-- `[abc]` -/
def oneOf (chars : String) (u : UInt16) : Bool := (units chars).contains u

/-- A word under the flag i; of the letters only the ASCII ones have two cases here. -/
def word (text : String) : Pattern UInt16 :=
  .row ((units text).map fun (v u : UInt16) => lower u = lower v)

/-- The same without the flag. -/
def exactly (text : String) : Pattern UInt16 := .row ((units text).map fun (v u : UInt16) => u = v)

def isHigh (u : UInt16) : Bool := 0xD800 ≤ u && u ≤ 0xDBFF

def isLow (u : UInt16) : Bool := 0xDC00 ≤ u && u ≤ 0xDFFF

/-- A surrogate without its other half is replaced. -/
def scalar (u : UInt16) : Char := if isHigh u || isLow u then '\uFFFD' else Char.ofNat u.toNat

/-- What UTF-8 makes of a text: each pair of surrogates is one character. -/
def scalars : Text → List Char
  | [] => []
  | [u] => [scalar u]
  | u :: v :: rest =>
    if isHigh u && isLow v then Char.ofNat (0x10000 + (u.toNat - 0xD800) * 0x400 + (v.toNat - 0xDC00)) :: scalars rest
    else scalar u :: scalars (v :: rest)

/-- A text without lone surrogates. -/
def WellFormed (text : Text) : Prop := ∃ content : String, units content = text

theorem scalars_cons {u : UInt16} (whole : isHigh u = false ∧ isLow u = false) (rest : Text) :
    scalars (u :: rest) = Char.ofNat u.toNat :: scalars rest := by
  have kept : scalar u = Char.ofNat u.toNat := by
    rw [scalar, whole.1, whole.2]
    rfl
  cases rest with
  | nil => exact congrArg (fun c => [c]) kept
  | cons v rest =>
    rw [scalars, whole.1, kept]
    rfl

theorem scalars_units (content : String) : scalars (units content) = content.toList := by
  rw [units, JavaScript.utf16]
  induction content.toList with
  | nil => rfl
  | cons c rest ih =>
    rw [List.flatMap_cons, List.map_append]
    have valid : c.toNat < 0xD800 ∨ 0xDFFF < c.toNat ∧ c.toNat < 0x110000 := c.valid
    by_cases small : c.toNat < 0x10000
    · have exact : (UInt16.ofNat c.toNat).toNat = c.toNat := by
        rw [UInt16.toNat_ofNat']
        exact Nat.mod_eq_of_lt small
      have whole : isHigh (UInt16.ofNat c.toNat) = false ∧ isLow (UInt16.ofNat c.toNat) = false := by
        simp only [isHigh, isLow, Bool.and_eq_false_iff, decide_eq_false_iff_not, UInt16.le_iff_toNat_le, exact]
        have bounds : (0xD800 : UInt16).toNat = 0xD800 ∧ (0xDBFF : UInt16).toNat = 0xDBFF ∧
            (0xDC00 : UInt16).toNat = 0xDC00 ∧ (0xDFFF : UInt16).toNat = 0xDFFF := by decide
        omega
      rw [if_pos small, List.map_cons, List.map_nil, List.singleton_append, scalars_cons whole, ih, exact, Char.ofNat_toNat]
    · have high : (UInt16.ofNat (0xD800 + (c.toNat - 0x10000) / 0x400)).toNat = 0xD800 + (c.toNat - 0x10000) / 0x400 := by
        rw [UInt16.toNat_ofNat']
        exact Nat.mod_eq_of_lt (by omega)
      have low : (UInt16.ofNat (0xDC00 + (c.toNat - 0x10000) % 0x400)).toNat = 0xDC00 + (c.toNat - 0x10000) % 0x400 := by
        rw [UInt16.toNat_ofNat']
        exact Nat.mod_eq_of_lt (by omega)
      have pair : (isHigh (UInt16.ofNat (0xD800 + (c.toNat - 0x10000) / 0x400)) &&
          isLow (UInt16.ofNat (0xDC00 + (c.toNat - 0x10000) % 0x400))) = true := by
        simp only [isHigh, isLow, Bool.and_eq_true, decide_eq_true_eq, UInt16.le_iff_toNat_le, high, low]
        have bounds : (0xD800 : UInt16).toNat = 0xD800 ∧ (0xDBFF : UInt16).toNat = 0xDBFF ∧
            (0xDC00 : UInt16).toNat = 0xDC00 ∧ (0xDFFF : UInt16).toNat = 0xDFFF := by decide
        omega
      rw [if_neg small]
      simp only [List.map_cons, List.map_nil, List.cons_append, List.nil_append]
      rw [scalars, if_pos pair, ih, high, low]
      have whole : 0x10000 + (0xD800 + (c.toNat - 0x10000) / 0x400 - 0xD800) * 0x400 +
          (0xDC00 + (c.toNat - 0x10000) % 0x400 - 0xDC00) = c.toNat := by omega
      rw [whole, Char.ofNat_toNat]

theorem units_scalars_iff {text : Text} : units (String.ofList (scalars text)) = text ↔ WellFormed text := by
  constructor
  · exact fun same => ⟨_, same⟩
  · rintro ⟨content, rfl⟩
    rw [scalars_units, String.ofList_toList]

end CodeUnits
