import Octraban.Core.JavaScript
import Octraban.Indexer.WasmFormat

/-! wasm-decompiler.ts: two disassemblers with a decoder of operands each. Nothing stands
for an exception and for a run that does not end; sizes from 2^31 on, which the source reads
as negative and goes back by, count as such too. -/
namespace Octraban.Wasm
open JavaScript Leb128

abbrev Buffer := List UInt8

def opcodeNames : List (UInt8 × String) :=
  [(0x00, "unreachable"), (0x01, "nop"), (0x02, "block"), (0x03, "loop"), (0x04, "if"), (0x05, "else"), (0x0b, "end"),
    (0x0c, "br"), (0x0d, "br_if"), (0x0e, "br_table"), (0x0f, "return"), (0x10, "call"), (0x11, "call_indirect"),
    (0x12, "return_call"), (0x13, "return_call_indirect"), (0x1a, "drop"), (0x1b, "select"), (0x20, "local.get"),
    (0x21, "local.set"), (0x22, "local.tee"), (0x23, "global.get"), (0x24, "global.set"), (0x25, "table.get"),
    (0x26, "table.set"), (0x28, "i32.load"), (0x29, "i64.load"), (0x2a, "f32.load"), (0x2b, "f64.load"),
    (0x2c, "i32.load8_s"), (0x2d, "i32.load8_u"), (0x2e, "i32.load16_s"), (0x2f, "i32.load16_u"),
    (0x30, "i64.load8_s"), (0x31, "i64.load8_u"), (0x32, "i64.load16_s"), (0x33, "i64.load16_u"),
    (0x34, "i64.load32_s"), (0x35, "i64.load32_u"), (0x36, "i32.store"), (0x37, "i64.store"), (0x38, "f32.store"),
    (0x39, "f64.store"), (0x3a, "i32.store8"), (0x3b, "i32.store16"), (0x3c, "i64.store8"), (0x3d, "i64.store16"),
    (0x3e, "i64.store32"), (0x3f, "memory.size"), (0x40, "memory.grow"), (0x41, "i32.const"), (0x42, "i64.const"),
    (0x43, "f32.const"), (0x44, "f64.const"), (0x45, "i32.eqz"), (0x46, "i32.eq"), (0x47, "i32.ne"),
    (0x48, "i32.lt_s"), (0x49, "i32.lt_u"), (0x4a, "i32.gt_s"), (0x4b, "i32.gt_u"), (0x4c, "i32.le_s"),
    (0x4d, "i32.le_u"), (0x4e, "i32.ge_s"), (0x4f, "i32.ge_u"), (0x50, "i64.eqz"), (0x51, "i64.eq"), (0x52, "i64.ne"),
    (0x53, "i64.lt_s"), (0x54, "i64.lt_u"), (0x55, "i64.gt_s"), (0x56, "i64.gt_u"), (0x57, "i64.le_s"),
    (0x58, "i64.le_u"), (0x59, "i64.ge_s"), (0x5a, "i64.ge_u"), (0x67, "i32.clz"), (0x68, "i32.ctz"),
    (0x69, "i32.popcnt"), (0x6a, "i32.add"), (0x6b, "i32.sub"), (0x6c, "i32.mul"), (0x6d, "i32.div_s"),
    (0x6e, "i32.div_u"), (0x6f, "i32.rem_s"), (0x70, "i32.rem_u"), (0x71, "i32.and"), (0x72, "i32.or"),
    (0x73, "i32.xor"), (0x74, "i32.shl"), (0x75, "i32.shr_s"), (0x76, "i32.shr_u"), (0x77, "i32.rotl"),
    (0x78, "i32.rotr"), (0x79, "i64.clz"), (0x7a, "i64.ctz"), (0x7b, "i64.popcnt"), (0x7c, "i64.add"),
    (0x7d, "i64.sub"), (0x7e, "i64.mul"), (0x7f, "i64.div_s"), (0x80, "i64.div_u"), (0x81, "i64.rem_s"),
    (0x82, "i64.rem_u"), (0x83, "i64.and"), (0x84, "i64.or"), (0x85, "i64.xor"), (0x86, "i64.shl"),
    (0x87, "i64.shr_s"), (0x88, "i64.shr_u"), (0x89, "i64.rotl"), (0x8a, "i64.rotr"), (0xa7, "i32.wrap_i64"),
    (0xa8, "i32.trunc_f32_s"), (0xa9, "i32.trunc_f32_u"), (0xaa, "i32.trunc_f64_s"), (0xab, "i32.trunc_f64_u"),
    (0xac, "i64.extend_i32_s"), (0xad, "i64.extend_i32_u"), (0xae, "i64.trunc_f32_s"), (0xaf, "i64.trunc_f32_u"),
    (0xb0, "i64.trunc_f64_s"), (0xb1, "i64.trunc_f64_u"), (0xfc, "misc")]
def hexByte (byte : UInt8) : String :=
  String.ofList [Nat.digitChar (byte.toNat / 16), Nat.digitChar (byte.toNat % 16)]

def mnemonicOf (opcode : UInt8) : String := (opcodeNames.lookup opcode).getD ("0x" ++ hexByte opcode)

/-- `result |= (byte & 0x7f) << shift` -/
def accumulate (result : BitVec 32) (byte : UInt8) (shift : Nat) : BitVec 32 :=
  result ||| BitVec.ofNat 32 (byte.toNat % 128) <<< (shift % 32)

def readUleb128.loop : Buffer → Nat → BitVec 32 → BitVec 32 × Nat
  | [], _, result => (result, 0)
  | byte :: rest, shift, result =>
    let next := accumulate result byte shift
    if byte.toNat < 128 then (next, 1)
    else
      let (final, bytesRead) := loop rest (shift + 7) next
      (final, bytesRead + 1)

def readUleb128 (buf : Buffer) (offset : Nat) : Int × Nat :=
  let (result, bytesRead) := readUleb128.loop (buf.drop offset) 0 0
  (result.toInt, bytesRead)

/-- A byte past the end counts as 0. -/
def readSleb128.loop : Buffer → Nat → BitVec 32 → BitVec 32 × Nat
  | [], _, result => (result, 1)
  | byte :: rest, shift, result =>
    let next := accumulate result byte shift
    if byte.toNat < 128 then
      (if shift + 7 < 32 ∧ 64 ≤ byte.toNat % 128 then next ||| (-1 : BitVec 32) <<< (shift + 7) else next, 1)
    else
      let (final, bytesRead) := loop rest (shift + 7) next
      (final, bytesRead + 1)

def readSleb128 (buf : Buffer) (offset : Nat) : Int × Nat :=
  let (result, bytesRead) := readSleb128.loop (buf.drop offset) 0 0
  (result.toInt, bytesRead)

def littleEndian (bytes : Buffer) : Nat := bytes.foldr (fun byte n => byte.toNat + 256 * n) 0

def bigEndian (bytes : Buffer) : Nat := bytes.foldl (fun n byte => 256 * n + byte.toNat) 0

/-- A read of so many bytes throws past the end. -/
def readLE (width : Nat) (buf : Buffer) (offset : Nat) : Option Nat :=
  if offset + width ≤ buf.length then some (littleEndian ((buf.drop offset).take width)) else none

/-- The labels of a br_table, up to the end of the body. -/
def skipLabels (buf : Buffer) (fin : Nat) : Nat → Nat → Nat
  | 0, offset => offset
  | n + 1, offset => if offset < fin then skipLabels buf fin n (offset + (readUleb128 buf offset).2) else offset

def skipImmediates (opcode : UInt8) (buf : Buffer) (offset fin : Nat) : Nat :=
  if opcode ∈ [0x02, 0x03, 0x04, 0x0c, 0x0d, 0x10, 0x12, 0x20, 0x21, 0x22, 0x23, 0x24, 0x25, 0x26, 0x41, 0x42,
      0xfc] then
    offset + (readUleb128 buf offset).2
  else if opcode ∈ [0x11, 0x13] ∨ (0x28 ≤ opcode ∧ opcode ≤ 0x3e) then
    let l1 := (readUleb128 buf offset).2
    let l2 := (readUleb128 buf (offset + l1)).2
    offset + l1 + l2
  else if opcode = 0x0e then
    let (count, countLen) := readUleb128 buf offset
    skipLabels buf fin (count + 1).toNat (offset + countLen)
  else if opcode ∈ [0x3f, 0x40] then offset + 1
  else if opcode = 0x43 then offset + 4
  else if opcode = 0x44 then offset + 8
  else offset

def readLabels (wasm : Buffer) : Nat → Nat → List Int × Nat
  | 0, offset => ([], offset)
  | n + 1, offset =>
    let (value, len) := readUleb128 wasm offset
    let (values, final) := readLabels wasm n (offset + len)
    (value :: values, final)

/-- The switch of `readInstruction`: it has no case for loads and stores. -/
def readImmediates (opcode : UInt8) (wasm : Buffer) (offset : Nat) : Option (List Int × Nat) :=
  if opcode ∈ [0x02, 0x03, 0x04, 0x41, 0x42] then
    let (value, len) := readSleb128 wasm offset
    some ([value], offset + len)
  else if opcode ∈ [0x0c, 0x0d, 0x10, 0x12, 0x20, 0x21, 0x22, 0x23, 0x24, 0x25, 0x26, 0x3f, 0x40, 0xfc] then
    let (value, len) := readUleb128 wasm offset
    some ([value], offset + len)
  else if opcode ∈ [0x11, 0x13] then
    let (value1, len1) := readUleb128 wasm offset
    let (value2, len2) := readUleb128 wasm (offset + len1)
    some ([value1, value2], offset + len1 + len2)
  else if opcode = 0x0e then
    let (count, countLen) := readUleb128 wasm offset
    let (labels, final) := readLabels wasm (count + 1).toNat (offset + countLen)
    some (count :: labels, final)
  else if opcode = 0x43 then (readLE 4 wasm offset).map fun bits : Nat => ([(bits : Int)], offset + 4)
  else if opcode = 0x44 then
    (readLE 8 wasm offset).map fun bits => ([((roundDouble bits).getD 0 : Int)], offset + 8)
  else some ([], offset)

structure WasmInstruction where
  offset : Nat
  mnemonic : String
  immediates : List Int
  raw : String

/-- The instruction and the offset of the next one. -/
def readInstruction (wasm : Buffer) (offset : Nat) : Option (WasmInstruction × Nat) := do
  let opcode ← wasm[offset]?
  let (immediates, nextOffset) ← readImmediates opcode wasm (offset + 1)
  let raw := String.join (((wasm.take nextOffset).drop offset).map hexByte)
  some (⟨offset, mnemonicOf opcode, immediates, raw⟩, nextOffset)

/-- Every instruction has its opcode, so the bytes of a body are enough turns. -/
def walkOpcodes (wasm : Buffer) (bodyEnd : Nat) : Nat → Nat → Option (List String)
  | 0, _ => some []
  | turns + 1, codeOffset =>
    if codeOffset < bodyEnd then do
      let byte ← wasm[codeOffset]?
      let rest ← walkOpcodes wasm bodyEnd turns (skipImmediates byte wasm (codeOffset + 1) bodyEnd)
      some (mnemonicOf byte :: rest)
    else some []

def walkInstructions (wasm : Buffer) (bodyEnd : Nat) : Nat → Nat → Option (List WasmInstruction)
  | 0, _ => some []
  | turns + 1, instructionOffset =>
    if instructionOffset < bodyEnd then do
      let (instruction, nextOffset) ← readInstruction wasm instructionOffset
      let rest ← walkInstructions wasm bodyEnd turns nextOffset
      some (instruction :: rest)
    else some []

def skipLocals (wasm : Buffer) (bodyEnd : Nat) : Nat → Nat → Nat
  | 0, codeOffset => codeOffset
  | n + 1, codeOffset =>
    if codeOffset < bodyEnd then skipLocals wasm bodyEnd n (codeOffset + (readUleb128 wasm codeOffset).2 + 1)
    else codeOffset

def valTypeName (code : UInt8) : String :=
  if code = 0x7f then "i32"
  else if code = 0x7e then "i64"
  else if code = 0x7d then "f32"
  else if code = 0x7c then "f64"
  else "unknown(0x" ++ String.ofList (Nat.toDigits 16 code.toNat) ++ ")"

def readLocals (wasm : Buffer) : Nat → Nat → Option (List String × Nat)
  | 0, pos => some ([], pos)
  | n + 1, pos => do
    let (count, countLen) := readUleb128 wasm pos
    let code ← wasm[pos + countLen]?
    let (localTypes, final) ← readLocals wasm n (pos + countLen + 1)
    some (List.replicate count.toNat (valTypeName code) ++ localTypes, final)

def indexBody (wasm : Buffer) (bodyStart bodyEnd : Nat) : Option (List String) :=
  let (localCount, localCountLen) := readUleb128 wasm bodyStart
  let codeOffset := skipLocals wasm bodyEnd localCount.toNat (bodyStart + localCountLen)
  walkOpcodes wasm bodyEnd (bodyEnd - codeOffset) codeOffset

structure FunctionAnalysis where
  localTypes : List String
  instructions : List WasmInstruction

def analyzeBody (wasm : Buffer) (bodyStart bodyEnd : Nat) : Option FunctionAnalysis := do
  let (localCount, localCountLen) := readUleb128 wasm bodyStart
  let (localTypes, pos) ← readLocals wasm localCount.toNat (bodyStart + localCountLen)
  let instructions ← walkInstructions wasm bodyEnd (bodyEnd - pos) pos
  some ⟨localTypes, instructions⟩

variable {α : Type}

/-- The loop over the bodies of a code section; the two disassemblers differ in what they do
with a body. -/
def functionBodies (visit : Nat → Nat → Option α) (wasm : Buffer) (sectionEnd : Nat) :
    Nat → Nat → Option (List α)
  | 0, _ => some []
  | n + 1, pos =>
    if pos < sectionEnd then do
      let (bodySize, bodySizeLen) := readUleb128 wasm pos
      let bodyStart := pos + bodySizeLen
      if bodySize < 0 then none
      else
        let bodyEnd := bodyStart + bodySize.toNat
        let body ← visit bodyStart bodyEnd
        let rest ← functionBodies visit wasm sectionEnd n bodyEnd
        some (body :: rest)
    else some []

/-- The loop over the sections, for so many turns at most. -/
def codeSections (visit : Nat → Nat → Option α) (wasm : Buffer) : Nat → Nat → Option (List α)
  | 0, _ => none
  | turns + 1, offset =>
    if offset < wasm.length then do
      let sectionId ← wasm[offset]?
      let (sectionSize, sizeLen) := readUleb128 wasm (offset + 1)
      let start := offset + 1 + sizeLen
      if sectionSize < 0 then none
      else
        let sectionEnd := start + sectionSize.toNat
        let (funcCount, funcCountLen) := readUleb128 wasm start
        let bodies ←
          if sectionId = 10 then functionBodies visit wasm sectionEnd funcCount.toNat (start + funcCountLen)
          else some []
        let rest ← codeSections visit wasm turns sectionEnd
        some (bodies ++ rest)
    else some []

structure OpcodeIndex where
  distinctOpcodes : List String
  totalOpcodes : Nat
  frequency : String → Nat
  sequence : List String

def buildOpcodeIndex (turns : Nat) (wasm : Buffer) : Option OpcodeIndex :=
  if wasm.length < 8 then none
  else if bigEndian (wasm.take 4) ≠ 0x0061736d then none
  else if littleEndian ((wasm.drop 4).take 4) ≠ 1 then none
  else do
    let bodies ← codeSections (indexBody wasm) wasm turns 8
    let sequence := bodies.flatten
    some ⟨sequence.dedup.mergeSort, sequence.length, sequence.count, sequence⟩

def analyzeFunctionBodies (turns : Nat) (wasm : Buffer) : Option (List FunctionAnalysis) :=
  codeSections (analyzeBody wasm) wasm turns 8

theorem accumulate_eq {acc shift : Nat} (byte : UInt8) (small : acc < 2 ^ shift) (room : shift < 32) :
    accumulate (BitVec.ofNat 32 acc) byte shift = BitVec.ofNat 32 (acc + 2 ^ shift * (byte.toNat % 128)) := by
  have shifted : BitVec.ofNat 32 (byte.toNat % 128) <<< shift = BitVec.ofNat 32 ((byte.toNat % 128) <<< shift) := by
    apply BitVec.eq_of_toNat_eq
    rw [BitVec.toNat_shiftLeft, BitVec.toNat_ofNat, BitVec.toNat_ofNat,
      Nat.mod_eq_of_lt (a := byte.toNat % 128) (b := 2 ^ 32) (by omega)]
  rw [accumulate, Nat.mod_eq_of_lt room, shifted, ← BitVec.ofNat_or, Nat.or_comm,
    ← Nat.shiftLeft_add_eq_or_of_lt small, Nat.shiftLeft_eq, Nat.add_comm, Nat.mul_comm]

theorem uleb_length {limit : Nat} (x : Encoding limit) (rest : Buffer) :
    ∀ shift result, (readUleb128.loop (x.bytes ++ rest) shift result).2 = x.bytes.length := by
  refine x.bytes_induction (P := fun bytes => ∀ shift result,
    (readUleb128.loop (bytes ++ rest) shift result).2 = bytes.length) ?_ ?_
  · intro byte ends shift result
    simp only [List.singleton_append, readUleb128.loop, if_pos ends, List.length_singleton]
  · intro byte bytes more ih shift result
    simp only [List.cons_append, readUleb128.loop, if_neg (not_lt.mpr more), ih, List.length_cons]

theorem sleb_length {limit : Nat} (x : Encoding limit) (rest : Buffer) :
    ∀ shift result, (readSleb128.loop (x.bytes ++ rest) shift result).2 = x.bytes.length := by
  refine x.bytes_induction (P := fun bytes => ∀ shift result,
    (readSleb128.loop (bytes ++ rest) shift result).2 = bytes.length) ?_ ?_
  · intro byte ends shift result
    simp only [List.singleton_append, readSleb128.loop, if_pos ends, List.length_singleton]
  · intro byte bytes more ih shift result
    simp only [List.cons_append, readSleb128.loop, if_neg (not_lt.mpr more), ih, List.length_cons]

theorem uleb_value {limit : Nat} (x : Encoding limit) (rest : Buffer) : ∀ k acc, acc < 2 ^ (7 * k) →
    k + x.bytes.length ≤ 5 → (readUleb128.loop (x.bytes ++ rest) (7 * k) (BitVec.ofNat 32 acc)).1 =
      BitVec.ofNat 32 (acc + 2 ^ (7 * k) * x.value) := by
  refine x.bytes_induction (P := fun bytes => ∀ k acc, acc < 2 ^ (7 * k) → k + bytes.length ≤ 5 →
    (readUleb128.loop (bytes ++ rest) (7 * k) (BitVec.ofNat 32 acc)).1 =
      BitVec.ofNat 32 (acc + 2 ^ (7 * k) * valueOf bytes)) ?_ ?_
  · intro byte ends k acc small short
    rw [List.length_singleton] at short
    simp only [List.singleton_append, readUleb128.loop, if_pos ends, valueOf, mul_zero, add_zero]
    exact accumulate_eq byte small (by omega)
  · intro byte bytes more ih k acc small short
    rw [List.length_cons] at short
    simp only [List.cons_append, readUleb128.loop, if_neg (not_lt.mpr more), valueOf]
    rw [accumulate_eq byte small (by omega)]
    have bound : byte.toNat % 128 < 128 := Nat.mod_lt _ (by decide)
    have power : 2 ^ (7 * (k + 1)) = 2 ^ (7 * k) * 128 := by rw [Nat.mul_succ, pow_add]; rfl
    have next := ih (k + 1) (acc + 2 ^ (7 * k) * (byte.toNat % 128)) (by rw [power]; nlinarith) (by omega)
    rw [show 7 * (k + 1) = 7 * k + 7 by ring] at next
    rw [next, ← show 7 * (k + 1) = 7 * k + 7 by ring, power]
    congr 1
    ring

variable {wasm : Buffer} {offset : Nat}

theorem readUleb128_length {limit : Nat} {x : Encoding limit} (holds : Holds wasm offset x.bytes) :
    (readUleb128 wasm offset).2 = x.bytes.length := by
  obtain ⟨rest, split⟩ := holds
  rw [readUleb128, ← split]
  exact uleb_length x rest 0 0

theorem readSleb128_length {limit : Nat} {x : Encoding limit} (holds : Holds wasm offset x.bytes) :
    (readSleb128 wasm offset).2 = x.bytes.length := by
  obtain ⟨rest, split⟩ := holds
  rw [readSleb128, ← split]
  exact sleb_length x rest 0 0

/-- Up to 2^31 the 32 bits hold the number. -/
theorem readUleb128_eq {x : U32} (holds : Holds wasm offset x.bytes) (small : x.value < 2 ^ 31) :
    readUleb128 wasm offset = ((x.value : Int), x.bytes.length) := by
  have length := readUleb128_length holds
  obtain ⟨rest, split⟩ := holds
  refine Prod.ext ?_ length
  have short : 0 + x.bytes.length ≤ 5 := by
    have fits := x.fits
    rw [x.length_bytes]
    omega
  have value := uleb_value x rest 0 0 (by decide) short
  rw [readUleb128, ← split]
  change (readUleb128.loop (x.bytes ++ rest) (7 * 0) (BitVec.ofNat 32 0)).1.toInt = x.value
  rw [value, Nat.mul_zero, pow_zero, Nat.zero_add, Nat.one_mul, BitVec.toInt_eq_toNat_of_lt]
  · rw [BitVec.toNat_ofNat, Nat.mod_eq_of_lt (by omega)]
  · rw [BitVec.toNat_ofNat, Nat.mod_eq_of_lt (by omega)]
    omega

theorem skipLabels_eq {fin : Nat} {labels : List U32} (holds : Holds wasm offset (labels.flatMap Encoding.bytes))
    (inside : offset + (labels.flatMap Encoding.bytes).length ≤ fin) :
    skipLabels wasm fin labels.length offset = offset + (labels.flatMap Encoding.bytes).length := by
  induction labels generalizing offset with
  | nil => rfl
  | cons label rest ih =>
    rw [List.flatMap_cons, Holds.append] at holds
    rw [List.flatMap_cons, List.length_append] at inside ⊢
    have positive := label.length_pos
    rw [List.length_cons, skipLabels, if_pos (by omega), readUleb128_length holds.1, ih holds.2 (by omega)]
    omega

theorem readLabels_eq {labels : List U32} (holds : Holds wasm offset (labels.flatMap Encoding.bytes)) :
    (readLabels wasm labels.length offset).2 = offset + (labels.flatMap Encoding.bytes).length := by
  induction labels generalizing offset with
  | nil => rfl
  | cons label rest ih =>
    rw [List.flatMap_cons, Holds.append] at holds
    have first := readUleb128_length holds.1
    rw [List.length_cons, readLabels]
    simp only [first, ih holds.2, List.flatMap_cons, List.length_append]
    omega

/-- The number of labels is read back, since they are all there. -/
theorem table_count {count : U32} {labels : List U32} (counted : labels.length = count.value + 1)
    (small : wasm.length < 2 ^ 31) (holds : Holds wasm offset (count.bytes ++ labels.flatMap Encoding.bytes)) :
    readUleb128 wasm offset = ((count.value : Int), count.bytes.length) ∧
      ((count.value : Int) + 1).toNat = labels.length := by
  have bound := length_le_flatMap labels Encoding.length_pos
  have inside := Holds.le_length (Holds.append.mp holds).2 (by omega)
  refine ⟨readUleb128_eq (Holds.append.mp holds).1 (by omega), ?_⟩
  rw [counted]
  rfl

theorem byte_cases {P : UInt8 → Prop} (all : ∀ n < 256, P (UInt8.ofNat n)) (byte : UInt8) : P byte := by
  have holds := all byte.toNat byte.toNat_lt
  rwa [UInt8.ofNat_toNat] at holds

/-- The opcodes without operands are in no case of the two switches. -/
theorem isPlain_spec : ∀ opcode, isPlain opcode = true →
    opcode ∉ [0x02, 0x03, 0x04, 0x0c, 0x0d, 0x10, 0x12, 0x20, 0x21, 0x22, 0x23, 0x24, 0x25, 0x26, 0x41, 0x42, 0xfc,
      0x3f, 0x40, 0x11, 0x13, 0x0e, 0x43, 0x44] ∧ ¬(0x28 ≤ opcode ∧ opcode ≤ 0x3e) := by
  refine byte_cases ?_
  decide +kernel

theorem skipImmediates_plain {opcode : UInt8} (listed : isPlain opcode = true) (fin : Nat) :
    skipImmediates opcode wasm offset fin = offset := by
  have outside := isPlain_spec opcode listed
  simp only [List.mem_cons, List.not_mem_nil, or_false, not_or] at outside
  simp [skipImmediates, outside]

theorem readImmediates_plain {opcode : UInt8} (listed : isPlain opcode = true) :
    readImmediates opcode wasm offset = some ([], offset) := by
  have outside := isPlain_spec opcode listed
  simp only [List.mem_cons, List.not_mem_nil, or_false, not_or] at outside
  simp [readImmediates, outside]

theorem misc_operands {sub : U32} {indices : List U32} {zeros : Nat}
    (shape : miscShape sub.value = some (indices.length, zeros)) (low : sub.value < 8) :
    (Instr.misc sub indices zeros shape).operands = sub.bytes := by
  have none : miscShape sub.value = some (0, 0) := by
    generalize sub.value = n at low
    interval_cases n <;> rfl
  obtain ⟨no, zero⟩ := Prod.mk.inj (Option.some.inj (shape.symm.trans none))
  rw [Instr.operands, List.length_eq_zero_iff.mp no, zero]
  exact List.append_nil _

theorem skipImmediates_eq {instr : Instr} {fin : Nat} (small : wasm.length < 2 ^ 31) (aligned : instr.aligned = true)
    (holds : Holds wasm offset instr.operands) (inside : offset + instr.operands.length ≤ fin) :
    skipImmediates instr.opcode wasm offset fin = offset + instr.operands.length := by
  cases instr with
  | plain opcode listed => exact skipImmediates_plain listed fin
  | block opcode listed type =>
    simp only [List.mem_cons, List.not_mem_nil, or_false] at listed
    rcases listed with rfl | rfl | rfl <;> exact congrArg (offset + ·) (readUleb128_length holds)
  | index opcode listed x =>
    simp only [List.mem_cons, List.not_mem_nil, or_false] at listed
    rcases listed with rfl | rfl | rfl | rfl | rfl | rfl | rfl | rfl | rfl | rfl | rfl <;>
      exact congrArg (offset + ·) (readUleb128_length holds)
  | indirect opcode listed type table =>
    rw [Instr.operands, Holds.append] at holds
    have both : offset + (readUleb128 wasm offset).2 + (readUleb128 wasm (offset + (readUleb128 wasm offset).2)).2 =
        offset + (type.bytes ++ table.bytes).length := by
      rw [readUleb128_length holds.1, readUleb128_length holds.2, List.length_append, Nat.add_assoc]
    simp only [List.mem_cons, List.not_mem_nil, or_false] at listed
    rcases listed with rfl | rfl <;> exact both
  | brTable count labels counted =>
    obtain ⟨first, number⟩ := table_count counted small holds
    rw [Instr.operands, Holds.append] at holds
    rw [Instr.operands, List.length_append] at inside ⊢
    have table : skipImmediates 0x0e wasm offset fin =
        skipLabels wasm fin ((readUleb128 wasm offset).1 + 1).toNat (offset + (readUleb128 wasm offset).2) := rfl
    rw [Instr.opcode, table, first, number, skipLabels_eq holds.2 (by omega), Nat.add_assoc]
  | access opcode listed align offset => contradiction
  | pages opcode listed =>
    simp only [List.mem_cons, List.not_mem_nil, or_false] at listed
    rcases listed with rfl | rfl <;> rfl
  | i32Const x => exact congrArg (offset + ·) (readUleb128_length holds)
  | i64Const x => exact congrArg (offset + ·) (readUleb128_length holds)
  | f32Const bits wide => exact congrArg (offset + ·) wide.symm
  | f64Const bits wide => exact congrArg (offset + ·) wide.symm
  | misc sub indices zeros shape =>
    rw [misc_operands shape (of_decide_eq_true aligned)] at holds ⊢
    exact congrArg (offset + ·) (readUleb128_length holds)

theorem readLE_isSome {width : Nat} {bits : List UInt8} (holds : Holds wasm offset bits) (wide : bits.length = width)
    (positive : 0 < width) : ∃ n, readLE width wasm offset = some n := by
  have inside := Holds.le_length holds (by omega)
  exact ⟨_, if_pos (by omega)⟩

theorem readImmediates_eq {instr : Instr} (small : wasm.length < 2 ^ 31) (aligned : instr.aligned = true)
    (holds : Holds wasm offset instr.operands) :
    ∃ immediates, readImmediates instr.opcode wasm offset = some (immediates, offset + instr.operands.length) := by
  have leb {limit : Nat} {x : Encoding limit} (holds : Holds wasm offset x.bytes) :
      some ([(readUleb128 wasm offset).1], offset + (readUleb128 wasm offset).2) =
        some ([(readUleb128 wasm offset).1], offset + x.bytes.length) := by
    rw [readUleb128_length holds]
  have sleb {limit : Nat} {x : Encoding limit} (holds : Holds wasm offset x.bytes) :
      some ([(readSleb128 wasm offset).1], offset + (readSleb128 wasm offset).2) =
        some ([(readSleb128 wasm offset).1], offset + x.bytes.length) := by
    rw [readSleb128_length holds]
  cases instr with
  | plain opcode listed => exact ⟨[], readImmediates_plain listed⟩
  | block opcode listed type =>
    simp only [List.mem_cons, List.not_mem_nil, or_false] at listed
    rcases listed with rfl | rfl | rfl <;> exact ⟨_, sleb holds⟩
  | index opcode listed x =>
    simp only [List.mem_cons, List.not_mem_nil, or_false] at listed
    rcases listed with rfl | rfl | rfl | rfl | rfl | rfl | rfl | rfl | rfl | rfl | rfl <;> exact ⟨_, leb holds⟩
  | indirect opcode listed type table =>
    rw [Instr.operands, Holds.append] at holds
    have first := readUleb128_length holds.1
    have second := readUleb128_length holds.2
    rw [← first] at second
    have both : some ([(readUleb128 wasm offset).1, (readUleb128 wasm (offset + (readUleb128 wasm offset).2)).1],
        offset + (readUleb128 wasm offset).2 + (readUleb128 wasm (offset + (readUleb128 wasm offset).2)).2) =
        some ([(readUleb128 wasm offset).1, (readUleb128 wasm (offset + (readUleb128 wasm offset).2)).1],
          offset + (type.bytes ++ table.bytes).length) := by
      rw [second, first, List.length_append, Nat.add_assoc]
    simp only [List.mem_cons, List.not_mem_nil, or_false] at listed
    rcases listed with rfl | rfl <;> exact ⟨_, both⟩
  | brTable count labels counted =>
    obtain ⟨first, number⟩ := table_count counted small holds
    rw [Instr.operands, Holds.append] at holds
    have table : readImmediates 0x0e wasm offset =
        some ((readUleb128 wasm offset).1 ::
          (readLabels wasm ((readUleb128 wasm offset).1 + 1).toNat (offset + (readUleb128 wasm offset).2)).1,
          (readLabels wasm ((readUleb128 wasm offset).1 + 1).toNat (offset + (readUleb128 wasm offset).2)).2) := rfl
    rw [Instr.opcode, table, first, number, readLabels_eq holds.2, Instr.operands, List.length_append, Nat.add_assoc]
    exact ⟨_, rfl⟩
  | access opcode listed align offset => contradiction
  | pages opcode listed =>
    have byte := readUleb128_length (x := (⟨[], 0, by simp, by decide, by decide⟩ : U32)) holds
    have one : some ([(readUleb128 wasm offset).1], offset + (readUleb128 wasm offset).2) =
        some ([(readUleb128 wasm offset).1], offset + 1) := by
      rw [byte]
      rfl
    simp only [List.mem_cons, List.not_mem_nil, or_false] at listed
    rcases listed with rfl | rfl <;> exact ⟨_, one⟩
  | i32Const x => exact ⟨_, sleb holds⟩
  | i64Const x => exact ⟨_, sleb holds⟩
  | f32Const bits wide =>
    obtain ⟨n, read⟩ := readLE_isSome holds wide (by decide)
    have four : readImmediates 0x43 wasm offset =
      (readLE 4 wasm offset).map fun bits : Nat => ([(bits : Int)], offset + 4) := rfl
    rw [Instr.opcode, four, read, Instr.operands, wide]
    exact ⟨_, rfl⟩
  | f64Const bits wide =>
    obtain ⟨n, read⟩ := readLE_isSome holds wide (by decide)
    have eight : readImmediates 0x44 wasm offset =
      (readLE 8 wasm offset).map fun bits => ([((roundDouble bits).getD 0 : Int)], offset + 8) := rfl
    rw [Instr.opcode, eight, read, Instr.operands, wide]
    exact ⟨_, rfl⟩
  | misc sub indices zeros shape =>
    rw [misc_operands shape (of_decide_eq_true aligned)] at holds ⊢
    exact ⟨_, leb holds⟩

theorem miscShape_pos {n indices zeros : Nat} (shape : miscShape n = some (indices, zeros)) (high : ¬n < 8) :
    0 < indices + zeros := by
  unfold miscShape at shape
  split at shape <;> cases shape <;> first | contradiction | decide

/-- After a memory access, or the sub-opcode of a longer instruction, reading stops inside the operands. -/
theorem readImmediates_misaligned {instr : Instr} (misaligned : instr.aligned = false)
    (holds : Holds wasm offset instr.operands) : ∃ immediates nextOffset,
      readImmediates instr.opcode wasm offset = some (immediates, nextOffset) ∧ offset ≤ nextOffset ∧
        nextOffset < offset + instr.operands.length := by
  cases instr with
  | access opcode listed align memory =>
    have outside : ∀ opcode : UInt8, 0x28 ≤ opcode ∧ opcode ≤ 0x3e →
        opcode ∉ [0x02, 0x03, 0x04, 0x41, 0x42, 0x0c, 0x0d, 0x10, 0x12, 0x20, 0x21, 0x22, 0x23, 0x24, 0x25, 0x26,
          0x3f, 0x40, 0xfc, 0x11, 0x13, 0x0e, 0x43, 0x44] := by
      refine byte_cases ?_
      decide +kernel
    have other := outside opcode listed
    simp only [List.mem_cons, List.not_mem_nil, or_false, not_or] at other
    refine ⟨[], offset, by simp [Instr.opcode, readImmediates, other], le_rfl, ?_⟩
    have positive := align.length_pos
    rw [Instr.operands, List.length_append]
    omega
  | misc sub indices zeros shape =>
    have high := of_decide_eq_false misaligned
    rw [Instr.operands, Holds.append] at holds
    have more := miscShape_pos shape high
    have words := length_le_flatMap indices Encoding.length_pos
    refine ⟨[(readUleb128 wasm offset).1], offset + sub.bytes.length, ?_, Nat.le_add_right _ _, ?_⟩
    · rw [← readUleb128_length holds.1]
      rfl
    · simp only [Instr.operands, List.length_append, List.length_replicate]
      omega
  | _ => contradiction

end Octraban.Wasm
