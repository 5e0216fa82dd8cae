import Octraban.Indexer.WasmDecompiler

/-! wasmContractSpec.js and wasmBuildMetadata.js of the indexer: two loops over the sections of a
binary. Sizes are signed numbers of 32 bits, and a position may become negative. -/
namespace Octraban.SectionScan
open Wasm

/-- The bytes from a position on; there is none at a negative one. -/
def bytesFrom (buf : Buffer) (pos : Int) : Buffer := if pos < 0 then [] else buf.drop pos.toNat

/-- The bits and the number of reads; past the end `byte` is undefined, which ends the loop. -/
def readLEB128.loop : Buffer → Nat → BitVec 32 → BitVec 32 × Nat
  | [], _, result => (result, 1)
  | byte :: rest, shift, result =>
    let next := accumulate result byte shift
    if byte.toNat < 128 then (next, 1)
    else
      let (final, reads) := loop rest (shift + 7) next
      (final, reads + 1)

/-- The value and the offset after it. -/
def readLEB128 (buf : Buffer) (offset : Int) : Int × Int :=
  let (result, reads) := readLEB128.loop (bytesFrom buf offset) 0 0
  (result.toInt, offset + reads)

/-- An index of `slice`: a negative one counts from the end. -/
def sliceIndex (length : Nat) (i : Int) : Nat := if i < 0 then (length + i).toNat else min i.toNat length

def slice (buf : Buffer) (start stop : Int) : Buffer :=
  (buf.take (sliceIndex buf.length stop)).drop (sliceIndex buf.length start)

/-- The bytes that `buf.toString("utf8", start, stop)` decodes. -/
def textBytes (buf : Buffer) (start stop : Int) : Buffer := (buf.take stop.toNat).drop start.toNat

def WASM_MAGIC : Buffer := [0x00, 0x61, 0x73, 0x6d]

def contractspecv0 : Buffer := "contractspecv0".toList.map fun c => UInt8.ofNat c.toNat

/-- The size of the section at a position, and the position after it. -/
def sectionHeader (buf : Buffer) (pos : Int) : Int × Int := readLEB128 buf (pos + 1)

def sectionEnd (buf : Buffer) (pos : Int) : Int := (sectionHeader buf pos).2 + (sectionHeader buf pos).1

/-- The section with the specification, when it is the one at a position. -/
def specSection (buf : Buffer) (pos : Int) : Option Buffer :=
  let (_, afterSize) := sectionHeader buf pos
  if (bytesFrom buf pos).head? = some 0 then
    let (nameLen, afterNameLen) := readLEB128 buf afterSize
    if slice buf afterNameLen (afterNameLen + nameLen) = contractspecv0 then
      some (slice buf (afterNameLen + nameLen) (sectionEnd buf pos))
    else none
  else none

inductive SpecError where
  | outOfRange
  | badMagic
  | noSection
  deriving DecidableEq

/-- Nothing stands for a run that does not end within the iterations given. -/
def extractContractSpecSection.loop (buf : Buffer) : Nat → Int → Option (Except SpecError Buffer)
  | 0, _ => none
  | fuel + 1, pos =>
    if pos < buf.length then
      match specSection buf pos with
      | some payload => some (.ok payload)
      | none => loop buf fuel (sectionEnd buf pos)
    else some (.error .noSection)

def extractContractSpecSection (buf : Buffer) (fuel : Nat) : Option (Except SpecError Buffer) :=
  if buf.length < 4 then some (.error .outOfRange)
  else if buf.take 4 ≠ WASM_MAGIC then some (.error .badMagic)
  else extractContractSpecSection.loop buf fuel 8

structure CustomSection where
  name : Buffer
  payload : Buffer
  deriving DecidableEq

def customSection (buf : Buffer) (pos : Int) : Option CustomSection :=
  let (_, afterSize) := sectionHeader buf pos
  if (bytesFrom buf pos).head? = some 0 ∧ afterSize < sectionEnd buf pos then
    let (nameLen, nameStart) := readLEB128 buf afterSize
    let nameEnd := nameStart + nameLen
    some ⟨textBytes buf nameStart nameEnd, slice buf nameEnd (sectionEnd buf pos)⟩
  else none

/-- What the generator yields. -/
def customSections.loop (buf : Buffer) : Nat → Int → Option (List CustomSection)
  | 0, _ => none
  | fuel + 1, pos =>
    if pos < buf.length then
      (loop buf fuel (sectionEnd buf pos)).map fun later => (customSection buf pos).toList ++ later
    else some []

def customSections (buf : Buffer) (fuel : Nat) : Option (List CustomSection) :=
  if buf.length < 8 ∨ buf.take 4 ≠ WASM_MAGIC then some [] else customSections.loop buf fuel 8

/-! ### Iterations -/

/-- The positions at which a loop looks for a section; `stops` tells where it returns. -/
inductive Visits (buf : Buffer) (stops : Int → Prop) : Int → Prop where
  | start : Visits buf stops 8
  | next : Visits buf stops pos → pos < buf.length → ¬ stops pos → Visits buf stops (sectionEnd buf pos)

/-- Every iteration goes forward. -/
def Advances (buf : Buffer) (stops : Int → Prop) : Prop :=
  ∀ pos, Visits buf stops pos → pos < buf.length → ¬ stops pos → pos < sectionEnd buf pos

/-- The bits of the size that a section header has, and the number of bytes of the header. -/
def headerBits (buf : Buffer) (pos : Int) : Nat × Nat :=
  let (bits, reads) := readLEB128.loop (bytesFrom buf (pos + 1)) 0 0
  (bits.toNat, reads + 1)

/-- The bits stand for a negative size, which outweighs the header. -/
def PointsBack (buf : Buffer) (pos : Int) : Prop :=
  2 ^ 31 ≤ (headerBits buf pos).1 ∧ (headerBits buf pos).1 + (headerBits buf pos).2 ≤ 2 ^ 32

/-- No header that a loop goes on from points back. -/
def KeepsForward (buf : Buffer) (stops : Int → Prop) : Prop :=
  ∀ pos, Visits buf stops pos → pos < buf.length → ¬ stops pos → ¬ PointsBack buf pos

variable {buf : Buffer} {stops : Int → Prop} {pos : Int}

theorem sectionEnd_eq (buf : Buffer) (pos : Int) : sectionEnd buf pos = pos + (headerBits buf pos).2 +
    if (headerBits buf pos).1 < 2 ^ 31 then ((headerBits buf pos).1 : Int) else (headerBits buf pos).1 - 2 ^ 32 := by
  unfold sectionEnd sectionHeader readLEB128 headerBits
  dsimp only
  rw [BitVec.toInt_eq_toNat_cond]
  split <;> split <;> push_cast <;> omega

theorem headerBits_bounds (buf : Buffer) (pos : Int) : (headerBits buf pos).1 < 2 ^ 32 ∧ 1 ≤ (headerBits buf pos).2 :=
  ⟨BitVec.isLt _, Nat.succ_le_succ (Nat.zero_le _)⟩

theorem advances_iff_header (buf : Buffer) (pos : Int) : pos < sectionEnd buf pos ↔ ¬ PointsBack buf pos := by
  obtain ⟨bits, header⟩ := headerBits_bounds buf pos
  rw [sectionEnd_eq, PointsBack]
  split <;> omega

theorem advances_iff (buf : Buffer) (stops : Int → Prop) : Advances buf stops ↔ KeepsForward buf stops := by
  simp only [Advances, KeepsForward, advances_iff_header]

/-! ### Ends -/

/-- The bytes that are left bound the iterations of a loop that goes forward. -/
theorem specLoop_ends (advances : Advances buf fun pos => (specSection buf pos).isSome)
    (visited : Visits buf (fun pos => (specSection buf pos).isSome) pos) {fuel : Nat}
    (enough : (buf.length - pos).toNat < fuel) : (extractContractSpecSection.loop buf fuel pos).isSome := by
  induction fuel generalizing pos with
  | zero => exact absurd enough (Nat.not_lt_zero _)
  | succ fuel ih =>
    rw [extractContractSpecSection.loop]
    split
    · rename_i inside
      cases found : specSection buf pos with
      | some payload => rfl
      | none =>
        have going : ¬ (specSection buf pos).isSome = true := by simp [found]
        have forward := advances pos visited inside going
        exact ih (visited.next inside going) (by omega)
    · rfl

theorem customLoop_ends (advances : Advances buf fun _ => False) (visited : Visits buf (fun _ => False) pos)
    {fuel : Nat} (enough : (buf.length - pos).toNat < fuel) : (customSections.loop buf fuel pos).isSome := by
  induction fuel generalizing pos with
  | zero => exact absurd enough (Nat.not_lt_zero _)
  | succ fuel ih =>
    rw [customSections.loop]
    split
    · rename_i inside
      have forward := advances pos visited inside not_false
      rw [Option.isSome_map]
      exact ih (visited.next inside not_false) (by omega)
    · rfl

/-! ### Short sizes -/

theorem accumulate_lt {result : BitVec 32} {shift : Nat} (byte : UInt8) (low : result.toNat < 2 ^ shift)
    (small : shift < 32) : (accumulate result byte shift).toNat < 2 ^ (shift + 7) := by
  have digit : byte.toNat % 128 < 2 ^ 7 := Nat.mod_lt _ (by norm_num)
  have shifted : (byte.toNat % 128) <<< shift < 2 ^ (shift + 7) := by
    rw [Nat.shiftLeft_eq, Nat.add_comm, Nat.pow_add]
    exact Nat.mul_lt_mul_of_pos_right digit (Nat.two_pow_pos shift)
  unfold accumulate
  rw [BitVec.toNat_or, BitVec.toNat_shiftLeft, BitVec.toNat_ofNat, Nat.mod_eq_of_lt small,
    Nat.mod_eq_of_lt (digit.trans (by norm_num))]
  refine Nat.or_lt_two_pow (low.trans_le (Nat.pow_le_pow_right (by norm_num) (by omega))) ?_
  exact (Nat.mod_le _ _).trans_lt shifted

theorem loop_lt (bytes : Buffer) {shift : Nat} {result : BitVec 32} (low : result.toNat < 2 ^ shift)
    (short : shift + 7 * (readLEB128.loop bytes shift result).2 < 32) :
    (readLEB128.loop bytes shift result).1.toNat < 2 ^ 31 := by
  induction bytes generalizing shift result with
  | nil => exact low.trans_le (Nat.pow_le_pow_right (by norm_num) (by omega))
  | cons byte rest ih =>
    rw [readLEB128.loop] at short ⊢
    split
    · rename_i last
      rw [if_pos last] at short
      exact (accumulate_lt byte low (by omega)).trans_le (Nat.pow_le_pow_right (by norm_num) (by omega))
    · rename_i more
      rw [if_neg more] at short
      dsimp only at short
      exact ih (accumulate_lt byte low (by omega)) (by omega)

/-- A size of at most four bytes is never read as a negative one. -/
theorem forward_of_short (short : (headerBits buf pos).2 ≤ 5) : ¬ PointsBack buf pos := by
  have reads : (readLEB128.loop (bytesFrom buf (pos + 1)) 0 0).2 + 1 ≤ 5 := short
  have low := loop_lt (bytesFrom buf (pos + 1)) (show (0 : BitVec 32).toNat < 2 ^ 0 by decide) (by omega)
  rintro ⟨high, -⟩
  exact absurd high (not_le.mpr low)

/-! ### Both scans -/

/-- Each loop goes forward and ends exactly when no section header that it reads points back. -/
theorem section_scans_iff (buf : Buffer) (magic : buf.take 4 = WASM_MAGIC) :
    ((Advances buf (fun pos => (specSection buf pos).isSome) ∧
        ∃ fuel, (extractContractSpecSection buf fuel).isSome) ↔
      KeepsForward buf fun pos => (specSection buf pos).isSome) ∧
    ((Advances buf (fun _ => False) ∧ ∃ fuel, (customSections buf fuel).isSome) ↔
      KeepsForward buf fun _ => False) := by
  rw [← advances_iff, ← advances_iff]
  refine ⟨⟨And.left, fun advances => ⟨advances, (buf.length - 8 : Int).toNat + 1, ?_⟩⟩,
    And.left, fun advances => ⟨advances, (buf.length - 8 : Int).toNat + 1, ?_⟩⟩
  · unfold extractContractSpecSection
    split
    · rfl
    · rw [if_neg (not_not.mpr magic)]
      exact specLoop_ends advances .start (Nat.lt_succ_self _)
  · unfold customSections
    split
    · rfl
    · exact customLoop_ends advances .start (Nat.lt_succ_self _)

/-- A section of an unknown kind of one byte, after the version. -/
def oneSection : Buffer := [0x00, 0x61, 0x73, 0x6d, 0x01, 0x00, 0x00, 0x00, 0x01, 0x01, 0x60]

theorem section_scans_oneSection : (∃ fuel, (extractContractSpecSection oneSection fuel).isSome) ∧
    ∃ fuel, (customSections oneSection fuel).isSome := by
  have visits {stops : Int → Prop} {pos : Int} (visited : Visits oneSection stops pos) : pos = 8 ∨ pos = 11 := by
    induction visited with
    | start => exact .inl rfl
    | next _ inside _ ih =>
      rcases ih with rfl | rfl
      · exact .inr rfl
      · exact absurd inside (by decide)
  have forward {stops : Int → Prop} (pos : Int) (visited : Visits oneSection stops pos)
      (inside : pos < oneSection.length) : ¬ PointsBack oneSection pos := by
    rcases visits visited with rfl | rfl
    · exact forward_of_short (by decide)
    · exact absurd inside (by decide)
  obtain ⟨spec, custom⟩ := section_scans_iff oneSection rfl
  exact ⟨(spec.mpr fun pos visited inside _ => forward pos visited inside).2,
    (custom.mpr fun pos visited inside _ => forward pos visited inside).2⟩

/-- A section header of six bytes with the size 2^32 - 6. -/
def looping : Buffer := WASM_MAGIC ++ [0x01, 0x00, 0x00, 0x00, 0x01, 0xfa, 0xff, 0xff, 0xff, 0x0f]

/-- Both loops stay at the header for ever. -/
theorem section_scans_loop : looping.take 4 = WASM_MAGIC ∧ sectionEnd looping 8 = 8 ∧
    (∀ fuel, extractContractSpecSection looping fuel = none) ∧ ∀ fuel, customSections looping fuel = none := by
  have stays : sectionEnd looping 8 = 8 := by decide
  have inside : (8 : Int) < looping.length := by decide
  have spec (fuel : Nat) : extractContractSpecSection.loop looping fuel 8 = none := by
    induction fuel with
    | zero => rfl
    | succ fuel ih =>
      have unknown : specSection looping 8 = none := by decide
      rw [extractContractSpecSection.loop, if_pos inside, unknown, stays]
      exact ih
  have custom (fuel : Nat) : customSections.loop looping fuel 8 = none := by
    induction fuel with
    | zero => rfl
    | succ fuel ih =>
      rw [customSections.loop, if_pos inside, stays, ih]
      rfl
  exact ⟨rfl, stays, spec, custom⟩

end Octraban.SectionScan
