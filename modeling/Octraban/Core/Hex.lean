import Octraban.Core.CodeUnits

/-! Bytes as pairs of hexadecimal digits: `Buffer.from(text, 'hex')` and its way back. -/
namespace Hex

open CodeUnits

/-- `[0-9a-fA-F]` -/
def isHex (u : UInt16) : Bool := isDigit u || between 'a' 'f' u || between 'A' 'F' u

def digit (u : UInt16) : Nat :=
  if isDigit u then u.toNat - 48 else (lower u).toNat - 87

/-- A pair that is not hexadecimal ends the bytes, and so does half a pair. -/
def bytes : Text → List UInt8
  | u :: v :: rest => if isHex u && isHex v then UInt8.ofNat (16 * digit u + digit v) :: bytes rest else []
  | _ => []

def hexUnit (n : Nat) : UInt16 := UInt16.ofNat (if n < 10 then n + 48 else n + 87)

/-- `bytes.toString('hex')` -/
def text (octets : List UInt8) : Text :=
  octets.flatMap fun octet => [hexUnit (octet.toNat / 16), hexUnit (octet.toNat % 16)]

theorem digit_facts (u : UInt16) (hex : isHex u = true) : digit u < 16 ∧ hexUnit (digit u) = lower u := by
  have inside : u.toNat < 128 := by
    simp only [isHex, isDigit, between, Bool.or_eq_true, Bool.and_eq_true, decide_eq_true_eq,
      UInt16.le_iff_toNat_le] at hex
    have bounds : (unit '9').toNat = 57 ∧ (unit 'f').toNat = 102 ∧ (unit 'F').toNat = 70 := by decide
    omega
  have all : ∀ n : Fin 128, isHex (UInt16.ofNat n) = true →
      digit (UInt16.ofNat n) < 16 ∧ hexUnit (digit (UInt16.ofNat n)) = lower (UInt16.ofNat n) := by decide
  have same : UInt16.ofNat u.toNat = u := UInt16.ofNat_toNat
  rw [← same] at hex ⊢
  exact all ⟨u.toNat, inside⟩ hex

theorem text_cons (octet : UInt8) (rest : List UInt8) :
    text (octet :: rest) = hexUnit (octet.toNat / 16) :: hexUnit (octet.toNat % 16) :: text rest := rfl

theorem length_text (octets : List UInt8) : (text octets).length = 2 * octets.length := by
  induction octets with
  | nil => rfl
  | cons octet rest ih =>
    rw [text_cons, List.length_cons, List.length_cons, ih, List.length_cons]
    omega

/-- Digits read as bytes come back in lower case when there is an even number of them. -/
theorem text_bytes {digits : Text} (hex : ∀ u ∈ digits, isHex u = true) (even : digits.length % 2 = 0) :
    text (bytes digits) = digits.map lower := by
  induction digits using bytes.induct with
  | case1 u v rest both ih =>
    obtain ⟨high, first⟩ := digit_facts u (hex u List.mem_cons_self)
    obtain ⟨low, second⟩ := digit_facts v (hex v (List.mem_cons_of_mem _ List.mem_cons_self))
    have octet : (UInt8.ofNat (16 * digit u + digit v)).toNat = 16 * digit u + digit v := by
      rw [UInt8.toNat_ofNat']
      exact Nat.mod_eq_of_lt (by omega)
    have upper : (16 * digit u + digit v) / 16 = digit u := by omega
    have below : (16 * digit u + digit v) % 16 = digit v := by omega
    have shorter : rest.length % 2 = 0 := by
      rw [List.length_cons, List.length_cons] at even
      omega
    rw [bytes, if_pos both, text_cons, octet, upper, below, first, second,
      ih (fun w member => hex w (List.mem_cons_of_mem _ (List.mem_cons_of_mem _ member))) shorter]
    rfl
  | case2 u v rest other =>
    exact absurd (by rw [hex u List.mem_cons_self, hex v (List.mem_cons_of_mem _ List.mem_cons_self)]; rfl) other
  | case3 digits short =>
    match digits with
    | [] => rfl
    | [u] => cases even
    | u :: v :: rest => exact (short u v rest rfl).elim

/-- They come back only then. -/
theorem text_bytes_iff {digits : Text} (hex : ∀ u ∈ digits, isHex u = true) :
    text (bytes digits) = digits.map lower ↔ digits.length % 2 = 0 := by
  refine ⟨fun same => ?_, text_bytes hex⟩
  have lengths := congrArg List.length same
  rw [length_text, List.length_map] at lengths
  omega

end Hex
