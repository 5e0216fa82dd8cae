import Octraban.Indexer.WasmDecompiler

/-! What the two disassemblers make of a whole module: the walk over a body, the bodies of
all code sections, and when both give the instructions that the binary encodes. -/
namespace Octraban.Wasm
open Leb128

variable {wasm : Buffer} {offset : Nat} {f : Function}

/-- Where an instruction is reported, and as what. -/
def WasmInstruction.place (instruction : WasmInstruction) : Nat × String := (instruction.offset, instruction.mnemonic)

def mnemonicAt (place : Nat × Instr) : Nat × String := (place.1, mnemonicOf place.2.opcode)

theorem readInstruction_of {instr : Instr} {immediates : List Int} {nextOffset : Nat}
    (holds : Holds wasm offset instr.bytes)
    (read : readImmediates instr.opcode wasm (offset + 1) = some (immediates, nextOffset)) :
    ∃ instruction, readInstruction wasm offset = some (instruction, nextOffset) ∧
      instruction.place = (offset, mnemonicOf instr.opcode) := by
  have opcode := (Holds.cons.mp holds).1
  refine ⟨⟨offset, mnemonicOf instr.opcode, immediates,
    String.join (((wasm.take nextOffset).drop offset).map hexByte)⟩, ?_, rfl⟩
  simp only [readInstruction, opcode, read, Option.bind_eq_bind, Option.bind_some]

theorem readInstruction_place {instruction : WasmInstruction} {nextOffset : Nat}
    (read : readInstruction wasm offset = some (instruction, nextOffset)) : instruction.offset = offset := by
  simp only [readInstruction, Option.bind_eq_bind, Option.bind_eq_some_iff] at read
  obtain ⟨opcode, -, ⟨immediates, next⟩, -, done⟩ := read
  cases done
  rfl

theorem walkInstructions_eq {body : List Instr} {bodyEnd turns : Nat} (small : wasm.length < 2 ^ 31)
    (aligned : ∀ instr ∈ body, instr.aligned = true) (holds : Holds wasm offset (body.flatMap Instr.bytes))
    (ends : bodyEnd = offset + (body.flatMap Instr.bytes).length)
    (enough : (body.flatMap Instr.bytes).length ≤ turns) :
    ∃ instructions, walkInstructions wasm bodyEnd turns offset = some instructions ∧
      instructions.map WasmInstruction.place = (listing offset body).map mnemonicAt := by
  induction body generalizing offset turns with
  | nil =>
    refine ⟨[], ?_, rfl⟩
    rw [List.flatMap_nil, List.length_nil, Nat.add_zero] at ends
    cases turns with
    | zero => rfl
    | succ turns => exact if_neg (by omega)
  | cons instr rest ih =>
    rw [List.flatMap_cons, Holds.append] at holds
    rw [List.flatMap_cons, List.length_append] at ends enough
    have length : instr.bytes.length = instr.operands.length + 1 := rfl
    obtain ⟨immediates, read⟩ :=
      readImmediates_eq small (aligned instr List.mem_cons_self) (Holds.cons.mp holds.1).2
    obtain ⟨instruction, read, place⟩ := readInstruction_of holds.1 read
    cases turns with
    | zero => omega
    | succ turns =>
      obtain ⟨instructions, walked, places⟩ := ih
        (fun other member => aligned other (List.mem_cons_of_mem _ member)) holds.2 (by omega)
        (show _ ≤ turns by omega)
      refine ⟨instruction :: instructions, ?_, ?_⟩
      · rw [walkInstructions, if_pos (by omega), read]
        simp only [Option.bind_eq_bind, Option.bind_some]
        rw [show offset + 1 + instr.operands.length = offset + instr.bytes.length by omega, walked]
        rfl
      · rw [List.map_cons, place, places]
        rfl

theorem walkOpcodes_eq {body : List Instr} {bodyEnd turns : Nat} (small : wasm.length < 2 ^ 31)
    (aligned : ∀ instr ∈ body, instr.aligned = true) (holds : Holds wasm offset (body.flatMap Instr.bytes))
    (ends : bodyEnd = offset + (body.flatMap Instr.bytes).length)
    (enough : (body.flatMap Instr.bytes).length ≤ turns) :
    walkOpcodes wasm bodyEnd turns offset = some (body.map fun instr => mnemonicOf instr.opcode) := by
  induction body generalizing offset turns with
  | nil =>
    rw [List.flatMap_nil, List.length_nil, Nat.add_zero] at ends
    cases turns with
    | zero => rfl
    | succ turns => exact if_neg (by omega)
  | cons instr rest ih =>
    rw [List.flatMap_cons, Holds.append] at holds
    rw [List.flatMap_cons, List.length_append] at ends enough
    have length : instr.bytes.length = instr.operands.length + 1 := rfl
    obtain ⟨opcode, operands⟩ := Holds.cons.mp holds.1
    cases turns with
    | zero => omega
    | succ turns =>
      have walked := ih (fun other member => aligned other (List.mem_cons_of_mem _ member)) holds.2
        (by omega) (show _ ≤ turns by omega)
      rw [walkOpcodes, if_pos (by omega), opcode]
      simp only [Option.bind_eq_bind, Option.bind_some]
      rw [skipImmediates_eq small (aligned instr List.mem_cons_self) operands (by omega),
        show offset + 1 + instr.operands.length = offset + instr.bytes.length by omega, walked]
      rfl

theorem le_of_mem_listing {body : List Instr} {place : Nat × Instr} (member : place ∈ listing offset body) :
    offset ≤ place.1 := by
  induction body generalizing offset with
  | nil => contradiction
  | cons instr rest ih =>
    rcases List.mem_cons.mp member with rfl | later
    · exact le_rfl
    · exact (Nat.le_add_right _ _).trans (ih later)

/-- A turn of the walk inside a body reads an instruction and goes on behind it. -/
theorem walkInstructions_succ {bodyEnd turns : Nat} {instructions : List WasmInstruction} (inside : offset < bodyEnd)
    (walked : walkInstructions wasm bodyEnd (turns + 1) offset = some instructions) :
    ∃ instruction nextOffset tail, readInstruction wasm offset = some (instruction, nextOffset) ∧
      walkInstructions wasm bodyEnd turns nextOffset = some tail ∧ instructions = instruction :: tail := by
  rw [walkInstructions, if_pos inside] at walked
  obtain ⟨⟨instruction, nextOffset⟩, read, onward⟩ := Option.bind_eq_some_iff.mp walked
  obtain ⟨tail, onward, done⟩ := Option.bind_eq_some_iff.mp onward
  exact ⟨instruction, nextOffset, tail, read, onward, (Option.some.inj done).symm⟩

/-- The walk over an instruction whose operands have been read. -/
theorem walkInstructions_read {instr : Instr} {bodyEnd turns nextOffset : Nat} {immediates : List Int}
    {instructions : List WasmInstruction} (inside : offset < bodyEnd) (holds : Holds wasm offset instr.bytes)
    (read : readImmediates instr.opcode wasm (offset + 1) = some (immediates, nextOffset))
    (walked : walkInstructions wasm bodyEnd (turns + 1) offset = some instructions) :
    ∃ instruction tail, instruction.place = (offset, mnemonicOf instr.opcode) ∧
      walkInstructions wasm bodyEnd turns nextOffset = some tail ∧ instructions = instruction :: tail := by
  obtain ⟨instruction, expected, place⟩ := readInstruction_of holds read
  obtain ⟨other, next, tail, found, onward, rfl⟩ := walkInstructions_succ inside walked
  obtain ⟨rfl, rfl⟩ := Prod.mk.inj (Option.some.inj (expected.symm.trans found))
  exact ⟨instruction, tail, place, onward, rfl⟩

/-- What is reported at the right offsets throughout has no operands that are misread: behind the
first misaligned instruction an operand is reported. -/
theorem aligned_of_walk {body : List Instr} {bodyEnd turns : Nat} {instructions : List WasmInstruction}
    {more later : List (Nat × String)} (small : wasm.length < 2 ^ 31)
    (holds : Holds wasm offset (body.flatMap Instr.bytes))
    (ends : bodyEnd = offset + (body.flatMap Instr.bytes).length) (enough : (body.flatMap Instr.bytes).length ≤ turns)
    (walked : walkInstructions wasm bodyEnd turns offset = some instructions)
    (same : instructions.map WasmInstruction.place ++ more = (listing offset body).map mnemonicAt ++ later)
    (beyond : ∀ place ∈ later, bodyEnd ≤ place.1) : ∀ instr ∈ body, instr.aligned = true := by
  induction body generalizing offset turns instructions with
  | nil => simp
  | cons instr rest ih =>
    rw [List.flatMap_cons, Holds.append] at holds
    rw [List.flatMap_cons, List.length_append] at ends enough
    have length : instr.bytes.length = instr.operands.length + 1 := rfl
    cases turns with
    | zero => omega
    | succ turns =>
      cases aligned : instr.aligned with
      | true =>
        obtain ⟨immediates, read⟩ := readImmediates_eq small aligned (Holds.cons.mp holds.1).2
        obtain ⟨instruction, tail, place, onward, rfl⟩ := walkInstructions_read (by omega) holds.1 read walked
        rw [List.map_cons, place] at same
        have tails := (List.cons.inj same).2
        have inside := ih holds.2 (by omega) (show _ ≤ turns by omega)
          (by rwa [show offset + 1 + instr.operands.length = offset + instr.bytes.length by omega] at onward) tails
        intro other member
        rcases List.mem_cons.mp member with rfl | member
        · exact aligned
        · exact inside other member
      | false =>
        exfalso
        obtain ⟨immediates, nextOffset, read, past, short⟩ :=
          readImmediates_misaligned aligned (Holds.cons.mp holds.1).2
        obtain ⟨instruction, tail, place, onward, rfl⟩ := walkInstructions_read (by omega) holds.1 read walked
        rw [List.map_cons, place] at same
        have tails := (List.cons.inj same).2
        cases turns with
        | zero => omega
        | succ turns =>
          obtain ⟨operand, next, last, misread, -, rfl⟩ := walkInstructions_succ (by omega) onward
          have start := readInstruction_place misread
          have reported : operand.place ∈ (listing (offset + instr.bytes.length) rest).map mnemonicAt ++ later := by
            change _ = (listing (offset + instr.bytes.length) rest).map mnemonicAt ++ later at tails
            rw [← tails]
            exact List.mem_cons_self
          rcases List.mem_append.mp reported with encoded | encoded
          · obtain ⟨place, member, same⟩ := List.mem_map.mp encoded
            have after := le_of_mem_listing member
            have here : place.1 = operand.offset := congrArg Prod.fst same
            omega
          · have after := beyond _ encoded
            change bodyEnd ≤ operand.offset at after
            omega

theorem local_length (decl : Local) : decl.bytes.length = decl.count.bytes.length + 1 := by
  rw [Local.bytes, List.length_append, List.length_singleton]

theorem skipLocals_eq {locals : List Local} {bodyEnd : Nat} (holds : Holds wasm offset (locals.flatMap Local.bytes))
    (inside : offset + (locals.flatMap Local.bytes).length ≤ bodyEnd) :
    skipLocals wasm bodyEnd locals.length offset = offset + (locals.flatMap Local.bytes).length := by
  induction locals generalizing offset with
  | nil => rfl
  | cons decl rest ih =>
    rw [List.flatMap_cons, Holds.append] at holds
    rw [List.flatMap_cons, List.length_append] at inside ⊢
    have length := local_length decl
    have count := readUleb128_length (Holds.append.mp holds.1).1
    rw [List.length_cons, skipLocals, if_pos (by omega), count,
      show offset + decl.count.bytes.length + 1 = offset + decl.bytes.length by omega, ih holds.2 (by omega)]
    omega

theorem readLocals_eq {locals : List Local} (holds : Holds wasm offset (locals.flatMap Local.bytes)) :
    ∃ localTypes, readLocals wasm locals.length offset =
      some (localTypes, offset + (locals.flatMap Local.bytes).length) := by
  induction locals generalizing offset with
  | nil => exact ⟨[], rfl⟩
  | cons decl rest ih =>
    rw [List.flatMap_cons, Holds.append] at holds
    have length := local_length decl
    obtain ⟨counted, typed⟩ := Holds.append.mp holds.1
    have count := readUleb128_length counted
    have code := (Holds.cons.mp typed).1
    obtain ⟨localTypes, read⟩ := ih holds.2
    refine ⟨List.replicate (readUleb128 wasm offset).1.toNat (valTypeName decl.type) ++ localTypes, ?_⟩
    rw [List.length_cons, readLocals]
    simp only [count, code, Option.bind_eq_bind, Option.bind_some]
    rw [show offset + decl.count.bytes.length + 1 = offset + decl.bytes.length by omega, read, List.flatMap_cons,
      List.length_append, Nat.add_assoc]
    rfl

theorem localCount_eq (small : wasm.length < 2 ^ 31) (holds : Holds wasm offset f.content) :
    readUleb128 wasm offset = ((f.locals.length : Int), f.localCount.bytes.length) := by
  rw [Function.content, Function.head, List.append_assoc, Holds.append, Holds.append] at holds
  have nonempty (decl : Local) : 0 < decl.bytes.length := by
    rw [local_length]
    exact Nat.succ_pos _
  have bound := length_le_flatMap f.locals nonempty
  have inside : f.locals.length < 2 ^ 31 := by
    rcases Nat.eq_zero_or_pos f.locals.length with none | some
    · omega
    · have fits := Holds.le_length holds.2.1 (by omega)
      omega
  rw [← f.counted] at inside ⊢
  exact readUleb128_eq holds.1 inside

theorem indexBody_eq (small : wasm.length < 2 ^ 31) (holds : Holds wasm offset f.content)
    (aligned : ∀ instr ∈ f.body, instr.aligned = true) :
    indexBody wasm offset (offset + f.content.length) = some (f.body.map fun instr => mnemonicOf instr.opcode) := by
  have count := localCount_eq small holds
  rw [Function.content, Holds.append] at holds
  have locals := (Holds.append.mp holds.1).2
  have length : f.content.length = f.head.length + (f.body.flatMap Instr.bytes).length := List.length_append
  have head : f.head.length = f.localCount.bytes.length + (f.locals.flatMap Local.bytes).length := List.length_append
  simp only [indexBody, count, Int.toNat_natCast]
  rw [skipLocals_eq locals (by omega),
    show offset + f.localCount.bytes.length + (f.locals.flatMap Local.bytes).length = offset + f.head.length by omega]
  exact walkOpcodes_eq small aligned holds.2 (by omega) (by omega)

theorem analyzeBody_of (small : wasm.length < 2 ^ 31) (holds : Holds wasm offset f.content) :
    ∃ localTypes, analyzeBody wasm offset (offset + f.content.length) =
      (walkInstructions wasm (offset + f.content.length) (f.body.flatMap Instr.bytes).length
        (offset + f.head.length)).map (FunctionAnalysis.mk localTypes) := by
  have count := localCount_eq small holds
  rw [Function.content, Holds.append] at holds
  have length : f.content.length = f.head.length + (f.body.flatMap Instr.bytes).length := List.length_append
  have head : f.head.length = f.localCount.bytes.length + (f.locals.flatMap Local.bytes).length := List.length_append
  obtain ⟨localTypes, read⟩ := readLocals_eq (Holds.append.mp holds.1).2
  refine ⟨localTypes, ?_⟩
  simp only [analyzeBody, count, Int.toNat_natCast, read, Option.bind_eq_bind, Option.bind_some]
  rw [show offset + f.localCount.bytes.length + (f.locals.flatMap Local.bytes).length = offset + f.head.length by omega,
    show offset + f.content.length - (offset + f.head.length) = (f.body.flatMap Instr.bytes).length by omega]
  cases walkInstructions wasm (offset + f.content.length) (f.body.flatMap Instr.bytes).length
    (offset + f.head.length) <;> rfl

theorem function_length (f : Function) : f.bytes.length = f.size.bytes.length + f.content.length := List.length_append

theorem functionBodies_eq {α : Type} {visit : Nat → Nat → Option α} {fs : List Function} {sectionEnd : Nat}
    (small : wasm.length < 2 ^ 31) (holds : Holds wasm offset (fs.flatMap Function.bytes))
    (inside : offset + (fs.flatMap Function.bytes).length ≤ sectionEnd) :
    functionBodies visit wasm sectionEnd fs.length offset =
      (placeFunctions offset fs).mapM fun placed => visit placed.1 (placed.1 + placed.2.content.length) := by
  induction fs generalizing offset with
  | nil => rfl
  | cons f rest ih =>
    rw [List.flatMap_cons, Holds.append] at holds
    rw [List.flatMap_cons, List.length_append] at inside
    have length := function_length f
    have positive := f.size.length_pos
    obtain ⟨sized, content⟩ := Holds.append.mp holds.1
    have fits := Holds.le_length holds.1 (by omega)
    have value : f.size.value = f.content.length := f.sized
    have size := readUleb128_eq sized (by omega)
    rw [List.length_cons, functionBodies, if_pos (by omega)]
    simp only [size, placeFunctions, List.mapM_cons]
    rw [if_neg (by omega), Int.toNat_natCast, value,
      show offset + f.size.bytes.length + f.content.length = offset + f.bytes.length by omega,
      ih holds.2 (by omega)]
    rfl

theorem codeSections_step {α : Type} {visit : Nat → Nat → Option α} {id : UInt8} {size : U32}
    {content : List UInt8} {turns : Nat} (small : wasm.length < 2 ^ 31)
    (holds : Holds wasm offset (id :: (size.bytes ++ content)))
    (sized : size.value = content.length) :
    codeSections visit wasm (turns + 1) offset =
      (if id = 10 then functionBodies visit wasm (offset + (id :: (size.bytes ++ content)).length)
          (readUleb128 wasm (offset + 1 + size.bytes.length)).1.toNat
          (offset + 1 + size.bytes.length + (readUleb128 wasm (offset + 1 + size.bytes.length)).2)
        else some []).bind fun bodies =>
      (codeSections visit wasm turns (offset + (id :: (size.bytes ++ content)).length)).bind fun rest =>
      some (bodies ++ rest) := by
  have fits := holds.length_le
  have length : (id :: (size.bytes ++ content)).length = size.bytes.length + content.length + 1 := by
    rw [List.length_cons, List.length_append]
  obtain ⟨first, holds⟩ := Holds.cons.mp holds
  have read := readUleb128_eq (Holds.append.mp holds).1 (by omega)
  rw [codeSections, if_pos (by omega), first]
  simp only [Option.bind_eq_bind, Option.bind_some, read]
  rw [if_neg (by omega), Int.toNat_natCast, sized,
    show offset + 1 + size.bytes.length + content.length = offset + (id :: (size.bytes ++ content)).length by omega]
  split <;> rfl

/-- The bodies that a disassembler visits are those of the module, whatever it does with them. -/
theorem codeSections_eq {α : Type} {visit : Nat → Nat → Option α} {sections : List Section} {turns : Nat}
    (small : wasm.length < 2 ^ 31) (holds : Holds wasm offset (sections.flatMap Section.bytes))
    (ends : offset + (sections.flatMap Section.bytes).length = wasm.length) (enough : sections.length < turns) :
    codeSections visit wasm turns offset =
      (placeSections offset sections).mapM fun placed => visit placed.1 (placed.1 + placed.2.content.length) := by
  induction sections generalizing offset turns with
  | nil =>
    cases turns with
    | zero => contradiction
    | succ turns =>
      rw [List.flatMap_nil, List.length_nil, Nat.add_zero] at ends
      exact if_neg (by omega)
  | cons sec rest ih =>
    rw [List.flatMap_cons, Holds.append] at holds
    rw [List.flatMap_cons, List.length_append] at ends
    rw [List.length_cons] at enough
    cases turns with
    | zero => contradiction
    | succ turns =>
      have later := ih holds.2 (by omega) (show _ < turns by omega)
      rw [placeSections, List.mapM_append, ← later]
      cases sec with
      | other id notCode size content sized =>
        rw [codeSections_step small holds.1 sized, if_neg notCode]
        rfl
      | code content =>
        obtain ⟨counted, functions⟩ := Holds.append.mp (Holds.append.mp (Holds.cons.mp holds.1).2).2
        have nonempty (f : Function) : 0 < f.bytes.length := by
          rw [function_length]
          exact Nat.add_pos_left f.size.length_pos _
        have bound := length_le_flatMap content.functions nonempty
        have fits : content.functions.length < 2 ^ 31 := by
          rcases Nat.eq_zero_or_pos content.functions.length with none | some
          · omega
          · have inside := Holds.le_length functions (by omega)
            omega
        rw [← content.counted] at fits
        have count := readUleb128_eq counted fits
        rw [Section.bytes, codeSections_step small holds.1 content.sized, if_pos rfl, count]
        dsimp only
        rw [Int.toNat_natCast, content.counted, functionBodies_eq small functions ?_]
        · rfl
        · rw [List.length_cons, List.length_append, CodeSection.content, List.length_append]
          omega

/-- Each function of a module stands where it is placed, and its instructions before those of later ones. -/
theorem placeFunctions_spec {fs : List Function} (holds : Holds wasm offset (fs.flatMap Function.bytes)) :
    (∀ placed ∈ placeFunctions offset fs, Holds wasm placed.1 placed.2.content ∧ offset ≤ placed.1 ∧
        placed.1 + placed.2.content.length ≤ offset + (fs.flatMap Function.bytes).length) ∧
      (placeFunctions offset fs).Pairwise fun a b => a.1 + a.2.content.length ≤ b.1 := by
  induction fs generalizing offset with
  | nil => simp [placeFunctions]
  | cons f rest ih =>
    rw [List.flatMap_cons, Holds.append] at holds
    have length := function_length f
    obtain ⟨spec, ordered⟩ := ih holds.2
    rw [List.flatMap_cons, List.length_append, placeFunctions]
    constructor
    · intro placed member
      rcases List.mem_cons.mp member with rfl | later
      · dsimp only
        exact ⟨(Holds.append.mp holds.1).2, by omega, by omega⟩
      · obtain ⟨stands, after, before⟩ := spec placed later
        exact ⟨stands, by omega, by omega⟩
    · refine List.pairwise_cons.mpr ⟨fun placed later => ?_, ordered⟩
      have after := (spec placed later).2.1
      dsimp only
      omega

theorem placeSections_spec {sections : List Section} (holds : Holds wasm offset (sections.flatMap Section.bytes)) :
    (∀ placed ∈ placeSections offset sections, Holds wasm placed.1 placed.2.content ∧ offset ≤ placed.1) ∧
      (placeSections offset sections).Pairwise fun a b => a.1 + a.2.content.length ≤ b.1 := by
  induction sections generalizing offset with
  | nil => simp [placeSections]
  | cons sec rest ih =>
    rw [List.flatMap_cons, Holds.append] at holds
    obtain ⟨spec, ordered⟩ := ih holds.2
    rw [placeSections]
    cases sec with
    | other id notCode size content sized =>
      refine ⟨fun placed later => ?_, ordered⟩
      have after := spec placed later
      exact ⟨after.1, by omega⟩
    | code content =>
      have functions := (Holds.append.mp (Holds.append.mp (Holds.cons.mp holds.1).2).2).2
      obtain ⟨inside, apart⟩ := placeFunctions_spec functions
      have length : (Section.code content).bytes.length = content.size.bytes.length +
          (content.count.bytes.length + (content.functions.flatMap Function.bytes).length) + 1 := by
        rw [Section.bytes, List.length_cons, List.length_append, CodeSection.content, List.length_append]
      constructor
      · intro placed member
        rcases List.mem_append.mp member with here | later
        · exact ⟨(inside placed here).1, by have after := (inside placed here).2.1; omega⟩
        · exact ⟨(spec placed later).1, by have after := (spec placed later).2; omega⟩
      · refine List.pairwise_append.mpr ⟨apart, ordered, fun a here b later => ?_⟩
        have before := (inside a here).2.2
        have after := (spec b later).2
        omega

/-- The two disassemblers give the instructions that the binary encodes, and the second one each at
the offset it has, so that no operand is taken for an instruction. -/
def Agree (m : Module) : Prop :=
  ∀ turns, m.bytes.length < turns → ∃ opcodeIndex functions,
    buildOpcodeIndex turns m.bytes = some opcodeIndex ∧ analyzeFunctionBodies turns m.bytes = some functions ∧
      opcodeIndex.sequence = m.listing.map (fun place => (mnemonicAt place).2) ∧
      (functions.flatMap (·.instructions)).map WasmInstruction.place = m.listing.map mnemonicAt

/-- No memory is accessed, and no instruction of the 0xfc group has operands. -/
def Module.Aligned (m : Module) : Prop := ∀ placed ∈ m.placed, ∀ instr ∈ placed.2.body, instr.aligned = true

theorem mapM_eq {α β : Type} {f : α → Option β} {g : α → β} {items : List α}
    (all : ∀ item ∈ items, f item = some (g item)) : items.mapM f = some (items.map g) := by
  induction items with
  | nil => rfl
  | cons item rest ih =>
    rw [List.mapM_cons, all item List.mem_cons_self, ih fun other member => all other (List.mem_cons_of_mem _ member)]
    rfl

theorem mnemonics_listing (body : List Instr) (offset : Nat) :
    (listing offset body).map (fun place => (mnemonicAt place).2) = body.map fun instr => mnemonicOf instr.opcode := by
  induction body generalizing offset with
  | nil => rfl
  | cons instr rest ih =>
    rw [listing, List.map_cons, List.map_cons, ih]
    rfl

section Visits
variable {placed : List (Nat × Function)} (small : wasm.length < 2 ^ 31)
  (stands : ∀ place ∈ placed, Holds wasm place.1 place.2.content)
include small stands

theorem index_visits (aligned : ∀ place ∈ placed, ∀ instr ∈ place.2.body, instr.aligned = true) :
    ∃ bodies, placed.mapM (fun place => indexBody wasm place.1 (place.1 + place.2.content.length)) = some bodies ∧
      bodies.flatten = (placed.flatMap fun place => place.2.listing place.1).map fun place => (mnemonicAt place).2 := by
  refine ⟨_, mapM_eq (g := fun place => place.2.body.map fun instr => mnemonicOf instr.opcode) ?_, ?_⟩
  · intro place member
    exact indexBody_eq small (stands place member) (aligned place member)
  · rw [List.map_flatMap, List.flatMap_def]
    congr 1
    exact List.map_congr_left fun place _ => (mnemonics_listing _ _).symm

theorem analyze_visits (aligned : ∀ place ∈ placed, ∀ instr ∈ place.2.body, instr.aligned = true) :
    ∃ functions, placed.mapM (fun place => analyzeBody wasm place.1 (place.1 + place.2.content.length)) =
        some functions ∧
      (functions.flatMap (·.instructions)).map WasmInstruction.place =
        (placed.flatMap fun place => place.2.listing place.1).map mnemonicAt := by
  induction placed with
  | nil => exact ⟨[], rfl, rfl⟩
  | cons place rest ih =>
    obtain ⟨functions, visited, same⟩ := ih (fun other member => stands other (List.mem_cons_of_mem _ member))
      fun other member => aligned other (List.mem_cons_of_mem _ member)
    have here := stands place List.mem_cons_self
    obtain ⟨localTypes, body⟩ := analyzeBody_of small here
    have length : place.2.content.length = place.2.head.length + (place.2.body.flatMap Instr.bytes).length :=
      List.length_append
    obtain ⟨instructions, walked, places⟩ := walkInstructions_eq small (aligned place List.mem_cons_self)
      (Holds.append.mp here).2 (by omega : place.1 + place.2.content.length = _) le_rfl
    refine ⟨⟨localTypes, instructions⟩ :: functions, ?_, ?_⟩
    · rw [List.mapM_cons, body, walked, visited]
      rfl
    · rw [List.flatMap_cons, List.flatMap_cons, List.map_append, List.map_append, same, places]
      rfl

theorem aligned_of_visits (ordered : placed.Pairwise fun a b => a.1 + a.2.content.length ≤ b.1)
    {functions : List FunctionAnalysis}
    (visited : placed.mapM (fun place => analyzeBody wasm place.1 (place.1 + place.2.content.length)) = some functions)
    (same : (functions.flatMap (·.instructions)).map WasmInstruction.place =
      (placed.flatMap fun place => place.2.listing place.1).map mnemonicAt) :
    ∀ place ∈ placed, ∀ instr ∈ place.2.body, instr.aligned = true := by
  induction placed generalizing functions with
  | nil => simp
  | cons place rest ih =>
    have here := stands place List.mem_cons_self
    obtain ⟨localTypes, body⟩ := analyzeBody_of small here
    have length : place.2.content.length = place.2.head.length + (place.2.body.flatMap Instr.bytes).length :=
      List.length_append
    rw [List.mapM_cons, body] at visited
    obtain ⟨analysis, analyzed, onward⟩ := Option.bind_eq_some_iff.mp visited
    obtain ⟨later, revisited, done⟩ := Option.bind_eq_some_iff.mp onward
    cases done
    obtain ⟨instructions, walked, rfl⟩ := Option.map_eq_some_iff.mp analyzed
    rw [List.flatMap_cons, List.flatMap_cons, List.map_append, List.map_append] at same
    have beyond : ∀ entry ∈ (rest.flatMap fun place => place.2.listing place.1).map mnemonicAt,
        place.1 + place.2.content.length ≤ entry.1 := by
      intro entry member
      obtain ⟨place', listed, rfl⟩ := List.mem_map.mp member
      obtain ⟨other, inside, listed⟩ := List.mem_flatMap.mp listed
      have apart := (List.pairwise_cons.mp ordered).1 other inside
      have after := le_of_mem_listing listed
      change _ ≤ place'.1
      omega
    have ends : place.1 + place.2.content.length =
        place.1 + place.2.head.length + (place.2.body.flatMap Instr.bytes).length := by omega
    have aligned := aligned_of_walk small (Holds.append.mp here).2 ends le_rfl walked same beyond
    obtain ⟨_, again, places⟩ := walkInstructions_eq small aligned (Holds.append.mp here).2 ends le_rfl
    cases walked.symm.trans again
    have tails := ih (fun other member => stands other (List.mem_cons_of_mem _ member))
      (List.pairwise_cons.mp ordered).2 revisited
      (List.append_cancel_left (by rw [same]; exact congrArg (· ++ _) places.symm))
    intro other member
    rcases List.mem_cons.mp member with rfl | member
    · exact aligned
    · exact tails other member

end Visits

theorem length_sections_le (sections : List Section) : sections.length ≤ (sections.flatMap Section.bytes).length := by
  refine length_le_flatMap sections fun sec => ?_
  cases sec <;> exact Nat.succ_pos _

/-- The disassemblers agree with the format on exactly the modules without memory accesses and without
bulk operations. -/
theorem agree_iff (m : Module) (small : m.bytes.length < 2 ^ 31) : Agree m ↔ m.Aligned := by
  have holds := (Holds.append.mp (Holds.whole m.bytes)).2
  rw [Nat.zero_add] at holds
  have ends : header.length + (m.sections.flatMap Section.bytes).length = m.bytes.length := List.length_append.symm
  have bound := length_sections_le m.sections
  obtain ⟨spec, ordered⟩ := placeSections_spec holds
  have stands := fun place member => (spec place member).1
  have analyzed (turns : Nat) (enough : m.bytes.length < turns) : analyzeFunctionBodies turns m.bytes =
      m.placed.mapM fun place => analyzeBody m.bytes place.1 (place.1 + place.2.content.length) :=
    codeSections_eq small holds ends (by omega)
  constructor
  · intro agree
    obtain ⟨-, functions, -, analysis, -, same⟩ := agree (m.bytes.length + 1) (Nat.lt_succ_self _)
    rw [analyzed _ (Nat.lt_succ_self _)] at analysis
    exact aligned_of_visits small stands ordered analysis same
  · intro aligned turns enough
    obtain ⟨bodies, indexed, sequence⟩ := index_visits small stands aligned
    obtain ⟨functions, visited, places⟩ := analyze_visits small stands aligned
    have sections : codeSections (indexBody m.bytes) m.bytes turns 8 = some bodies :=
      (codeSections_eq small holds ends (by omega)).trans indexed
    have built : buildOpcodeIndex turns m.bytes = some ⟨bodies.flatten.dedup.mergeSort, bodies.flatten.length,
        bodies.flatten.count, bodies.flatten⟩ := by
      have magic : bigEndian (m.bytes.take 4) = 0x0061736d := rfl
      have version : littleEndian ((m.bytes.drop 4).take 4) = 1 := rfl
      have long : ¬m.bytes.length < 8 := by
        rw [← ends]
        exact Nat.not_lt.mpr (Nat.le_add_right _ _)
      rw [buildOpcodeIndex, if_neg long, if_neg (not_not.mpr magic), if_neg (not_not.mpr version), sections]
      rfl
    exact ⟨_, functions, built, (analyzed turns enough).trans visited, sequence, places⟩

/-- A number in one byte. -/
def oneByte (n : Fin 128) : U32 where
  init := []
  last := UInt8.ofNat n
  more := by simp
  ends := by
    rw [UInt8.toNat_ofNat', Nat.mod_eq_of_lt (by omega)]
    exact n.isLt
  fits := by decide

/-- A function from i32 to i32, and a memory of one page. -/
def declarations : List Section :=
  [.other 1 (by decide) (oneByte 6) [0x01, 0x60, 0x01, 0x7f, 0x01, 0x7f] rfl,
    .other 3 (by decide) (oneByte 2) [0x01, 0x00] rfl,
    .other 5 (by decide) (oneByte 3) [0x01, 0x00, 0x01] rfl]

/-- `local.get 0`, `i32.const 7`, `i32.add`, `end`. -/
def adding : Module where
  sections := declarations ++ [.code ⟨oneByte 9, oneByte 1, [⟨oneByte 7, oneByte 0, [],
    [.index 0x20 (by decide) (oneByte 0), .i32Const (oneByte 7), .plain 0x6a rfl, .plain 0x0b rfl], rfl, rfl⟩],
    rfl, rfl⟩]

theorem adding_agrees : Agree adding := by
  refine (agree_iff adding (by decide)).mpr ?_
  unfold Module.Aligned
  decide

/-- `local.get 0`, `i32.load` with alignment 2 and offset 0, `end`. -/
def loading : Module where
  sections := declarations ++ [.code ⟨oneByte 9, oneByte 1, [⟨oneByte 7, oneByte 0, [],
    [.index 0x20 (by decide) (oneByte 0), .access 0x28 (by decide) (oneByte 2) (oneByte 0), .plain 0x0b rfl],
    rfl, rfl⟩], rfl, rfl⟩]

/-- The alignment is reported as a block. -/
theorem loading_disagrees : (analyzeFunctionBodies 100 loading.bytes).map (fun functions =>
      (functions.flatMap (·.instructions)).map (·.mnemonic)) = some ["local.get", "i32.load", "block", "end"] ∧
    loading.listing.map (fun place => (mnemonicAt place).2) = ["local.get", "i32.load", "end"] ∧ ¬Agree loading := by
  have analysis : (analyzeFunctionBodies 100 loading.bytes).map (fun functions =>
      (functions.flatMap (·.instructions)).map (·.mnemonic)) = some ["local.get", "i32.load", "block", "end"] := by
    decide
  have listed : loading.listing.map (fun place => (mnemonicAt place).2) = ["local.get", "i32.load", "end"] := by
    decide
  refine ⟨analysis, listed, fun agree => ?_⟩
  obtain ⟨-, functions, -, analyzed, -, same⟩ := agree 100 (by decide)
  rw [analyzed] at analysis
  have mnemonics := congrArg (List.map Prod.snd) same
  rw [List.map_map, List.map_map] at mnemonics
  rw [Option.map_some, Option.some.injEq] at analysis
  exact absurd ((analysis.symm.trans mnemonics).trans listed) (by decide)

end Octraban.Wasm
