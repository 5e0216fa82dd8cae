import Mathlib.Data.Nat.Bitwise

/-! LEB128: a number as bytes of seven bits each, lowest first. All bytes but the last have
their high bit set, so a reader knows the end; a number has longer encodings too. Buffers
are lists of bytes, read at an offset. -/
namespace Leb128

/-- An encoding of fewer bytes than `limit + 1`. -/
structure Encoding (limit : Nat) where
  init : List UInt8
  last : UInt8
  more : ∀ byte ∈ init, 128 ≤ byte.toNat
  ends : last.toNat < 128
  fits : init.length < limit

def valueOf : List UInt8 → Nat
  | [] => 0
  | byte :: rest => byte.toNat % 128 + 128 * valueOf rest

namespace Encoding
variable {limit : Nat} (x : Encoding limit)

def bytes : List UInt8 := x.init ++ [x.last]

def value : Nat := valueOf x.bytes

theorem length_bytes : x.bytes.length = x.init.length + 1 := by
  rw [bytes, List.length_append, List.length_singleton]

theorem length_pos : 0 < x.bytes.length := by
  rw [length_bytes]
  exact Nat.succ_pos _

/-- What holds of the last byte, and of a longer encoding when it holds of the shorter one
that its first byte goes before, holds of all. -/
theorem bytes_induction {P : List UInt8 → Prop} (last : ∀ byte : UInt8, byte.toNat < 128 → P [byte])
    (more : ∀ (byte : UInt8) rest, 128 ≤ byte.toNat → P rest → P (byte :: rest)) : P x.bytes := by
  have step (init : List UInt8) (high : ∀ byte ∈ init, 128 ≤ byte.toNat) : P (init ++ [x.last]) := by
    induction init with
    | nil => exact last x.last x.ends
    | cons byte init ih =>
      exact more byte _ (high byte List.mem_cons_self)
        (ih fun other member => high other (List.mem_cons_of_mem _ member))
  exact step x.init x.more

end Encoding

/-- `buffer` has these bytes at the offset. -/
def Holds (buffer : List UInt8) (offset : Nat) (bytes : List UInt8) : Prop := bytes <+: buffer.drop offset

namespace Holds
variable {buffer first second : List UInt8} {offset : Nat} {byte : UInt8}

theorem append : Holds buffer offset (first ++ second) ↔
    Holds buffer offset first ∧ Holds buffer (offset + first.length) second := by
  unfold Holds
  constructor
  · rintro ⟨rest, split⟩
    rw [List.append_assoc] at split
    refine ⟨⟨second ++ rest, split⟩, rest, ?_⟩
    rw [← List.drop_drop, ← split, List.drop_left]
  · rintro ⟨⟨rest, split⟩, later⟩
    rw [← List.drop_drop, ← split, List.drop_left] at later
    rw [← split]
    exact (List.prefix_append_right_inj first).mpr later

theorem cons : Holds buffer offset (byte :: second) ↔
    buffer[offset]? = some byte ∧ Holds buffer (offset + 1) second := by
  have split : Holds buffer offset ([byte] ++ second) ↔ _ := append
  rw [List.singleton_append, List.length_singleton] at split
  rw [split]
  refine and_congr_left fun _ => ?_
  unfold Holds
  rw [← List.head?_drop]
  cases buffer.drop offset with
  | nil => simp
  | cons other rest => simp [eq_comm]

theorem length_le (holds : Holds buffer offset (byte :: second)) :
    offset + (byte :: second).length ≤ buffer.length := by
  have bound := List.IsPrefix.length_le holds
  rw [List.length_drop] at bound
  have inside := (List.getElem?_eq_some_iff.mp (cons.mp holds).1).1
  omega

theorem le_length {bytes : List UInt8} (holds : Holds buffer offset bytes) (nonempty : 0 < bytes.length) :
    offset + bytes.length ≤ buffer.length := by
  cases bytes with
  | nil => contradiction
  | cons byte rest => exact holds.length_le

theorem whole (buffer : List UInt8) : Holds buffer 0 buffer := List.prefix_rfl

end Holds

theorem length_le_flatMap {β : Type} {f : β → List UInt8} (items : List β)
    (nonempty : ∀ item, 0 < (f item).length) : items.length ≤ (items.flatMap f).length := by
  induction items with
  | nil => exact Nat.le_refl _
  | cons item rest ih =>
    have first := nonempty item
    rw [List.length_cons, List.flatMap_cons, List.length_append]
    omega

end Leb128
