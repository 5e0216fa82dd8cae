import Octraban.Indexer.SectionScan

/-! The loops over sections of wasm-decompiler.ts, wasm-abi-extractor.ts and wasm-spec.ts: buildOpcodeIndex,
parseWasmSections, parseWasmModule, analyzeFunctionBodies and parseSections read a size up to the end of the
binary, parseWasmSpec reads on. No body assigns the offset of its loop, so the bodies are parameters. -/
namespace Octraban.SectionLoops
open Wasm Leb128
open SectionScan (bytesFrom slice)

/-- The bits of a number at an offset, and how many bytes are read for it. -/
abbrev Sizes := Int → BitVec 32 × Nat

/-- A byte before the start is undefined, which ends the number; past the end nothing is read. -/
def readUleb128 (wasm : Buffer) : Sizes := fun offset =>
  if offset < 0 then (0, 1) else Wasm.readUleb128.loop (wasm.drop offset.toNat) 0 0

/-- Past the end a byte is undefined, too. -/
def readUleb128Spec (wasm : Buffer) : Sizes := fun offset => SectionScan.readLEB128.loop (bytesFrom wasm offset) 0 0

section
variable (sizes : Sizes) (length : Nat) (stops : Int → Bool)

/-- `sectionEnd`, where the next section is looked for. -/
def sectionEnd (offset : Int) : Int := offset + 1 + (sizes (offset + 1)).2 + (sizes (offset + 1)).1.toInt

/-- The offsets at which the iterations start, for so many of them at most; `stops` tells which iterations throw. -/
def sectionOffsets : Nat → Int → Option (List Int)
  | 0, _ => none
  | fuel + 1, offset =>
    if offset < length then
      if stops offset then some [offset]
      else (sectionOffsets fuel (sectionEnd sizes offset)).map (offset :: ·)
    else some []

/-- The offsets that a loop comes to. -/
inductive Met : Int → Prop where
  | start : Met 8
  | next : Met offset → offset < length → stops offset = false → Met (sectionEnd sizes offset)

def Advances : Prop := ∀ offset, Met sizes length stops offset → offset < length → stops offset = false →
  offset < sectionEnd sizes offset

/-- The bits of the size stand for a negative number, which outweighs the header. -/
def PointsBack (offset : Int) : Prop :=
  2 ^ 31 ≤ (sizes (offset + 1)).1.toNat ∧ (sizes (offset + 1)).1.toNat + (sizes (offset + 1)).2 + 1 ≤ 2 ^ 32

def KeepsForward : Prop := ∀ offset, Met sizes length stops offset → offset < length → stops offset = false →
  ¬ PointsBack sizes offset

end

structure WasmSection where
  id : Option UInt8
  size : Int
  data : Buffer
  deriving DecidableEq

def parseSections.loop (wasm : Buffer) : Nat → Int → Option (List WasmSection)
  | 0, _ => none
  | fuel + 1, offset =>
    if offset < wasm.length then
      let (size, sizeLen) := readUleb128 wasm (offset + 1)
      let start := offset + 1 + sizeLen
      (loop wasm fuel (start + size.toInt)).map
        (⟨(bytesFrom wasm offset).head?, size.toInt, slice wasm start (start + size.toInt)⟩ :: ·)
    else some []

def parseSections (wasm : Buffer) (fuel : Nat) : Option (List WasmSection) :=
  if wasm.length < 8 then some [] else parseSections.loop wasm fuel 8

variable {wasm : Buffer} {sizes : Sizes} {length fuel : Nat} {stops : Int → Bool} {offset : Int}

/-! ### Iterations -/

theorem advances_iff_size (sizes : Sizes) (offset : Int) : offset < sectionEnd sizes offset ↔ ¬ PointsBack sizes offset := by
  have bits := (sizes (offset + 1)).1.isLt
  rw [sectionEnd, PointsBack, BitVec.toInt_eq_toNat_cond]
  split <;> push_cast <;> omega

theorem advances_iff : Advances sizes length stops ↔ KeepsForward sizes length stops := by
  simp only [Advances, KeepsForward, advances_iff_size]

/-- What is left of the binary bounds the iterations of a loop that goes forward. -/
theorem sectionOffsets_isSome (advances : Advances sizes length stops) (met : Met sizes length stops offset)
    (enough : (length - offset).toNat < fuel) : (sectionOffsets sizes length stops fuel offset).isSome := by
  induction fuel generalizing offset with
  | zero => exact absurd enough (Nat.not_lt_zero _)
  | succ fuel ih =>
    rw [sectionOffsets]
    split
    · rename_i inside
      split
      · rfl
      · rename_i going
        have going : stops offset = false := Bool.eq_false_iff.mpr going
        have forward := advances offset met inside going
        rw [Option.isSome_map]
        exact ih (met.next inside going) (by omega)
    · rfl

theorem sectionOffsets_none (inside : offset < length) (stays : sectionEnd sizes offset = offset) (fuel : Nat) :
    sectionOffsets sizes length (fun _ => false) fuel offset = none := by
  induction fuel with
  | zero => rfl
  | succ fuel ih =>
    rw [sectionOffsets, if_pos inside, if_neg Bool.false_ne_true, stays, ih]
    rfl

theorem loop_iff (sizes : Sizes) (length : Nat) (stops : Int → Bool) :
    (Advances sizes length stops ∧ ∃ fuel, (sectionOffsets sizes length stops fuel 8).isSome) ↔
      KeepsForward sizes length stops := by
  rw [← advances_iff]
  exact ⟨And.left, fun advances => ⟨advances, _, sectionOffsets_isSome advances .start (Nat.lt_succ_self _)⟩⟩

theorem isSome_parseSections_loop (wasm : Buffer) (fuel : Nat) (offset : Int) :
    (parseSections.loop wasm fuel offset).isSome =
      (sectionOffsets (readUleb128 wasm) wasm.length (fun _ => false) fuel offset).isSome := by
  induction fuel generalizing offset with
  | zero => rfl
  | succ fuel ih =>
    rw [parseSections.loop, sectionOffsets]
    split
    · dsimp only
      rw [if_neg Bool.false_ne_true, Option.isSome_map, Option.isSome_map]
      exact ih _
    · rfl

/-! ### Sections of a module -/

/-- A section of any kind. -/
structure RawSection where
  id : UInt8
  size : U32
  payload : List UInt8
  sized : size.value = payload.length
  fits : size.value < 2 ^ 32

def RawSection.bytes (s : RawSection) : List UInt8 := s.id :: (s.size.bytes ++ s.payload)

def moduleBytes (sections : List RawSection) : List UInt8 := header ++ sections.flatMap RawSection.bytes

def RawSection.entry (s : RawSection) : Option UInt8 × List UInt8 := (some s.id, s.payload)

def WasmSection.entry (s : WasmSection) : Option UInt8 × List UInt8 := (s.id, s.data)

def Exact (sections : List RawSection) : Prop :=
  ∃ fuel read, parseSections (moduleBytes sections) fuel = some read ∧
    read.map WasmSection.entry = sections.map RawSection.entry

variable {at' : Nat} {s : RawSection} {sections : List RawSection} {read : List WasmSection}

theorem readUleb128_eq {x : U32} (holds : Holds wasm at' x.bytes) :
    readUleb128 wasm at' = (BitVec.ofNat 32 x.value, x.bytes.length) := by
  obtain ⟨rest, split⟩ := holds
  have fits := x.fits
  have short : 0 + x.bytes.length ≤ 5 := by rw [x.length_bytes]; omega
  have value := uleb_value x rest 0 0 (by decide) short
  rw [Nat.mul_zero, pow_zero, Nat.zero_add, Nat.one_mul] at value
  rw [readUleb128, if_neg (Int.not_lt.mpr (Int.natCast_nonneg _)), Int.toNat_natCast, ← split]
  exact Prod.ext value (uleb_length x rest 0 0)

/-- A size from 2^31 on is read as a negative one. -/
theorem toInt_size (s : RawSection) : (BitVec.ofNat 32 s.size.value).toInt =
    if s.size.value < 2 ^ 31 then (s.size.value : Int) else s.size.value - 2 ^ 32 := by
  have fits := s.fits
  rw [BitVec.toInt_eq_toNat_cond, BitVec.toNat_ofNat, Nat.mod_eq_of_lt s.fits]
  split <;> split <;> push_cast <;> omega

theorem slice_of_holds {bytes : List UInt8} (holds : Holds wasm at' bytes) (inside : at' + bytes.length ≤ wasm.length) :
    slice wasm at' (at' + bytes.length : Int) = bytes := by
  have stop : SectionScan.sliceIndex wasm.length (at' + bytes.length : Int) = at' + bytes.length := by
    rw [SectionScan.sliceIndex, if_neg (by omega)]
    omega
  have start : SectionScan.sliceIndex wasm.length at' = at' := by
    rw [SectionScan.sliceIndex, if_neg (by omega)]
    omega
  rw [SectionScan.slice, stop, start, List.drop_take, Nat.add_sub_cancel_left]
  exact (List.prefix_iff_eq_take.mp holds).symm

theorem length_slice (wasm : Buffer) (start stop : Int) : (slice wasm start stop).length =
    min (SectionScan.sliceIndex wasm.length stop) wasm.length - SectionScan.sliceIndex wasm.length start := by
  rw [SectionScan.slice, List.length_drop, List.length_take]

theorem length_bytes (s : RawSection) : s.bytes.length = 1 + s.size.bytes.length + s.size.value := by
  rw [RawSection.bytes, List.length_cons, List.length_append, s.sized]
  omega

/-- The iteration that starts at a section. -/
theorem loop_section (holds : Holds wasm at' s.bytes) (fuel : Nat) : parseSections.loop wasm (fuel + 1) at' =
    let size := (BitVec.ofNat 32 s.size.value).toInt
    let start : Int := at' + 1 + s.size.bytes.length
    (parseSections.loop wasm fuel (start + size)).map (⟨some s.id, size, slice wasm start (start + size)⟩ :: ·) := by
  have inside : (at' : Int) < wasm.length := by
    have within := Holds.length_le holds
    rw [List.length_cons] at within
    omega
  have id : (bytesFrom wasm at').head? = some s.id := by
    obtain ⟨rest, split⟩ := holds
    rw [bytesFrom, if_neg (Int.not_lt.mpr (Int.natCast_nonneg _)), Int.toNat_natCast, ← split]
    rfl
  have size := readUleb128_eq (Holds.append.mp (Holds.cons.mp holds).2).1
  rw [parseSections.loop, if_pos inside, id]
  push_cast at size
  rw [size]

/-- `Exact` for the rest of a module, from an offset on. -/
def ExactFrom (wasm : Buffer) (at' : Nat) (sections : List RawSection) : Prop :=
  ∃ fuel read, parseSections.loop wasm fuel at' = some read ∧ read.map WasmSection.entry = sections.map RawSection.entry

/-- Before the start the loop still goes on, and what it finds there has no id. -/
theorem id_of_negative (before : offset < 0) (read : parseSections.loop wasm fuel offset = some found) :
    ∃ w rest, found = w :: rest ∧ w.id = none := by
  cases fuel with
  | zero => cases read
  | succ fuel =>
    rw [parseSections.loop, if_pos (by omega)] at read
    obtain ⟨rest, -, rfl⟩ := Option.map_eq_some_iff.mp read
    exact ⟨_, rest, rfl, by rw [bytesFrom, if_pos before]; rfl⟩

theorem exactFrom_cons (holds : Holds wasm at' s.bytes) (small : s.size.value < 2 ^ 31) :
    ExactFrom wasm at' (s :: sections) ↔ ExactFrom wasm (at' + s.bytes.length) sections := by
  have stop : (at' + 1 + s.size.bytes.length : Int) + (BitVec.ofNat 32 s.size.value).toInt = (at' + s.bytes.length : Nat) := by
    rw [toInt_size, if_pos small, length_bytes]
    push_cast
    ring
  have data : slice wasm (at' + 1 + s.size.bytes.length) (at' + s.bytes.length : Nat) = s.payload := by
    have payload := (Holds.append.mp (Holds.cons.mp holds).2).2
    have within := Holds.length_le holds
    have found := slice_of_holds payload (by rw [← s.sized]; rw [← RawSection.bytes, length_bytes] at within; omega)
    rw [← found]
    congr 1
    rw [length_bytes, s.sized]
    push_cast
    ring
  have step (fuel) := loop_section holds fuel
  simp only [stop, data] at step
  constructor
  · rintro ⟨fuel, read, parsed, same⟩
    cases fuel with
    | zero => cases parsed
    | succ fuel =>
      rw [step, Option.map_eq_some_iff] at parsed
      obtain ⟨rest, parsed, rfl⟩ := parsed
      exact ⟨fuel, rest, parsed, (List.cons.inj same).2⟩
  · rintro ⟨fuel, read, parsed, same⟩
    refine ⟨fuel + 1, _, by rw [step, parsed]; rfl, ?_⟩
    rw [List.map_cons, List.map_cons, same]
    rfl

/-- Of a section from 2^31 bytes on nothing is read, or the offset becomes negative. -/
theorem not_exactFrom (holds : Holds wasm at' s.bytes) (large : 2 ^ 31 ≤ s.size.value) :
    ¬ ExactFrom wasm at' (s :: sections) := by
  rintro ⟨fuel, read, parsed, same⟩
  cases fuel with
  | zero => cases parsed
  | succ fuel =>
    rw [loop_section holds, Option.map_eq_some_iff] at parsed
    obtain ⟨rest, parsed, rfl⟩ := parsed
    have same := List.cons.inj same
    have data := congrArg (fun entry => entry.2.length) same.1
    have negative := toInt_size s
    rw [if_neg (Nat.not_lt.mpr large)] at negative
    have fits := s.fits
    rcases Int.lt_or_le ((at' + 1 + s.size.bytes.length : Int) + (BitVec.ofNat 32 s.size.value).toInt) 0 with before | after
    · obtain ⟨w, more, rfl, id⟩ := id_of_negative before parsed
      cases sections with
      | nil => cases same.2
      | cons next sections =>
        have ids := congrArg Prod.fst (List.cons.inj same.2).1
        rw [WasmSection.entry, id] at ids
        cases ids
    · simp only [WasmSection.entry, RawSection.entry, length_slice] at data
      rw [SectionScan.sliceIndex, if_neg (by omega), SectionScan.sliceIndex, if_neg (by omega), ← s.sized] at data
      omega

theorem exactFrom_iff (holds : Holds wasm at' (sections.flatMap RawSection.bytes))
    (whole : at' + (sections.flatMap RawSection.bytes).length = wasm.length) :
    ExactFrom wasm at' sections ↔ ∀ s ∈ sections, s.size.value < 2 ^ 31 := by
  induction sections generalizing at' with
  | nil =>
    have stopped : ¬ (at' : Int) < wasm.length := by
      rw [← whole]
      exact Int.lt_irrefl _
    exact ⟨fun _ _ member => (nomatch member), fun _ => ⟨1, [], by rw [parseSections.loop, if_neg stopped], rfl⟩⟩
  | cons s sections ih =>
    rw [List.flatMap_cons] at holds whole
    rw [List.length_append, ← Nat.add_assoc] at whole
    obtain ⟨here, later⟩ := Holds.append.mp holds
    rw [List.forall_mem_cons]
    rcases Nat.lt_or_ge s.size.value (2 ^ 31) with small | large
    · rw [exactFrom_cons here small, ih later whole]
      exact (and_iff_right small).symm
    · exact iff_of_false (not_exactFrom here large) fun all => absurd all.1 (Nat.not_lt.mpr large)

theorem sections_exact_iff (sections : List RawSection) : Exact sections ↔ ∀ s ∈ sections, s.size.value < 2 ^ 31 := by
  have long : ¬ (moduleBytes sections).length < 8 := by
    rw [moduleBytes, List.length_append]
    exact Nat.not_lt.mpr (Nat.le_add_right 8 _)
  have after : Holds (moduleBytes sections) 8 (sections.flatMap RawSection.bytes) :=
    (Holds.append.mp (Holds.whole (moduleBytes sections))).2
  rw [← exactFrom_iff after (by rw [moduleBytes, List.length_append]; rfl)]
  simp only [Exact, ExactFrom, parseSections, if_neg long]
  rfl

theorem section_loops_iff (wasm : Buffer) :
    (∀ stops, (Advances (readUleb128 wasm) wasm.length stops ∧
        ∃ fuel, (sectionOffsets (readUleb128 wasm) wasm.length stops fuel 8).isSome) ↔
      KeepsForward (readUleb128 wasm) wasm.length stops) ∧
    (∀ stops, (Advances (readUleb128Spec wasm) wasm.length stops ∧
        ∃ fuel, (sectionOffsets (readUleb128Spec wasm) wasm.length stops fuel 8).isSome) ↔
      KeepsForward (readUleb128Spec wasm) wasm.length stops) ∧
    ((Advances (readUleb128 wasm) wasm.length (fun _ => false) ∧ ∃ fuel, (parseSections wasm fuel).isSome) ↔
      KeepsForward (readUleb128 wasm) wasm.length fun _ => false) ∧
    ∀ sections, Exact sections ↔ ∀ s ∈ sections, s.size.value < 2 ^ 31 := by
  refine ⟨fun stops => loop_iff _ _ stops, fun stops => loop_iff _ _ stops, ?_, sections_exact_iff⟩
  rw [← advances_iff]
  refine ⟨And.left, fun advances => ⟨advances, (wasm.length - (8 : Int)).toNat + 1, ?_⟩⟩
  rw [parseSections]
  split
  · rfl
  · rw [isSome_parseSections_loop]
    exact sectionOffsets_isSome advances .start (Nat.lt_succ_self _)

/-- A section header of six bytes with the size 2^32 - 6. -/
def looping : Buffer := header ++ [0x01, 0xfa, 0xff, 0xff, 0xff, 0x0f]

/-- All the loops stay at the header for ever. -/
theorem section_loops_stay : sectionEnd (readUleb128 looping) 8 = 8 ∧ sectionEnd (readUleb128Spec looping) 8 = 8 ∧
    (∀ fuel, sectionOffsets (readUleb128 looping) looping.length (fun _ => false) fuel 8 = none) ∧
    (∀ fuel, sectionOffsets (readUleb128Spec looping) looping.length (fun _ => false) fuel 8 = none) ∧
    ∀ fuel, parseSections looping fuel = none := by
  have stays : sectionEnd (readUleb128 looping) 8 = 8 := by decide
  have staysSpec : sectionEnd (readUleb128Spec looping) 8 = 8 := by decide
  have inside : (8 : Int) < looping.length := by decide
  have never := sectionOffsets_none inside stays
  refine ⟨stays, staysSpec, never, sectionOffsets_none inside staysSpec, fun fuel => ?_⟩
  rw [parseSections, if_neg (by decide), ← Option.not_isSome_iff_eq_none, isSome_parseSections_loop, never]
  exact Bool.false_ne_true

end Octraban.SectionLoops
