import Octraban.Indexer.WasmModule

/-! The hostCalls of analyzeFunctionBodies in wasm-decompiler.ts: the imports that the calls of a body go to. -/
namespace Octraban.Wasm
open Reader (Yields)

structure HostCallInfo where
  module : Buffer
  name : Buffer
  instructionOffset : Nat
  deriving DecidableEq

def ParsedWasmModule.targetName (info : ParsedWasmModule) (targetIndex : Int) : Buffer :=
  (info.functionNameMap.get targetIndex).getD (ascii ("func_" ++ toString targetIndex))

/-- The entry of an instruction in hostCalls, if it has one. -/
def ParsedWasmModule.hostCall (info : ParsedWasmModule) (insn : WasmInstruction) : Option HostCallInfo :=
  if insn.mnemonic = "call" then
    let targetIndex := insn.immediates.head?.getD 0
    if targetIndex < info.importedFunctionCount then
      let typeIndex :=
        if targetIndex - info.importedFunctionCount < 0 then none
        else info.functionTypeIndices[(targetIndex - info.importedFunctionCount).toNat]?
      let imported := info.imports.find? fun imp => imp.kind = .func ∧ imp.typeIndex = typeIndex
      some ⟨(imported.map WasmImportEntry.module).getD (ascii "unknown"),
        (imported.map WasmImportEntry.name).getD (info.targetName targetIndex), insn.offset⟩
    else none
  else none

def ParsedWasmModule.hostCalls (info : ParsedWasmModule) (instructions : List WasmInstruction) : List HostCallInfo :=
  instructions.filterMap info.hostCall

def ParsedWasmModule.functionImports (info : ParsedWasmModule) : List WasmImportEntry :=
  info.imports.filter fun entry => entry.kind = .func

def Calls (insn : WasmInstruction) (t : Nat) : Prop := insn.mnemonic = "call" ∧ insn.immediates.head?.getD 0 = t

/-- Every call of an imported function has the entry of that import. -/
def Attributed (info : ParsedWasmModule) (instructions : List WasmInstruction) : Prop :=
  ∀ insn ∈ instructions, ∀ t < info.importedFunctionCount, Calls insn t →
    ∃ imported, info.functionImports[t]? = some imported ∧
      info.hostCall insn = some ⟨imported.module, imported.name, insn.offset⟩

/-! ### What is known of a parsed module -/

structure Consistent (info : ParsedWasmModule) : Prop where
  counted : info.importedFunctionCount = info.functionImports.length
  typed : ∀ entry ∈ info.imports, entry.kind = .func → entry.typeIndex.isSome

variable {wasm : Buffer} {info next : ParsedWasmModule} {start sectionEnd offset turns : Nat} {sectionId : UInt8}

theorem readImport_typed (types : List WasmTypeEntry) :
    Yields (readImport wasm types) fun entry => entry.kind = .func → entry.typeIndex.isSome := by
  refine .bind fun module => .bind fun name => .bind fun kind => ?_
  split
  · exact .bind fun typeIndex => .bind fun type => .pure fun _ => rfl
  · split
    · exact .bind fun elemType => .bind fun limits => .pure fun func => nomatch func
    · split
      · exact .bind fun limits => .pure fun func => nomatch func
      · split
        · exact .bind fun typeName => .bind fun mutability => .pure fun func => nomatch func
        · exact .pure fun func => nomatch func

theorem Consistent.addImports (consistent : Consistent info) {imports : List WasmImportEntry}
    (typed : ∀ entry ∈ imports, entry.kind = .func → entry.typeIndex.isSome) : Consistent (info.addImports imports) where
  counted := by
    rw [ParsedWasmModule.functionImports, ParsedWasmModule.addImports, List.filter_append, List.length_append]
    exact congrArg (· + _) consistent.counted
  typed := List.forall_mem_append.mpr ⟨consistent.typed, typed⟩

theorem Consistent.parseSection (consistent : Consistent info)
    (parsed : parseSection wasm sectionId start sectionEnd info = some next) : Consistent next := by
  -- every section but that of the imports leaves the imports and their number as they are
  have kept (same : next.imports = info.imports) (count : next.importedFunctionCount = info.importedFunctionCount) :
      Consistent next :=
    ⟨by rw [count, consistent.counted, ParsedWasmModule.functionImports, ← same]; rfl, same ▸ consistent.typed⟩
  unfold Wasm.parseSection at parsed
  split at parsed
  · obtain ⟨read, -, rfl⟩ := Option.map_eq_some_iff.mp parsed
    exact kept rfl rfl
  · split at parsed
    · obtain ⟨read, returned, rfl⟩ := Option.map_eq_some_iff.mp parsed
      refine consistent.addImports ?_
      exact Yields.bind (fun count : Int => (readImport_typed info.types).many count.toNat) start read.1 read.2 returned
    · split at parsed
      · obtain ⟨read, -, rfl⟩ := Option.map_eq_some_iff.mp parsed
        exact kept rfl rfl
      · split at parsed
        · obtain ⟨read, -, rfl⟩ := Option.map_eq_some_iff.mp parsed
          exact kept rfl rfl
        · split at parsed
          · obtain ⟨read, -, rfl⟩ := Option.map_eq_some_iff.mp parsed
            exact kept rfl rfl
          · split at parsed
            · obtain ⟨read, -, rfl⟩ := Option.map_eq_some_iff.mp parsed
              exact kept rfl rfl
            · split at parsed
              · obtain ⟨⟨customName, pos⟩, -, named⟩ := Option.bind_eq_some_iff.mp parsed
                dsimp only at named
                split at named
                · obtain ⟨read, -, rfl⟩ := Option.map_eq_some_iff.mp named
                  exact kept rfl rfl
                · cases named
                  exact consistent
              · cases parsed
                exact consistent

theorem consistent_loop (consistent : Consistent info)
    (parsed : parseWasmModule.loop wasm turns offset info = some next) : Consistent next := by
  induction turns generalizing offset info with
  | zero => cases parsed
  | succ turns ih =>
    rw [parseWasmModule.loop] at parsed
    split at parsed
    · obtain ⟨sectionId, -, parsed⟩ := Option.bind_eq_some_iff.mp parsed
      dsimp only at parsed
      split at parsed
      · cases parsed
      · obtain ⟨middle, section', later⟩ := Option.bind_eq_some_iff.mp parsed
        exact ih (consistent.parseSection section') later
    · cases parsed
      exact consistent

theorem consistent_parseWasmModule (parsed : parseWasmModule wasm turns = some info) : Consistent info := by
  have empty : Consistent {} := ⟨rfl, fun _ member => nomatch member⟩
  exact consistent_loop empty parsed

/-! ### Calls -/

/-- The type is looked up before the first defined function, where there is none. -/
theorem hostCall_eq (consistent : Consistent info) {insn : WasmInstruction} {t : Nat} (calls : Calls insn t)
    (foreign : t < info.importedFunctionCount) :
    info.hostCall insn = some ⟨ascii "unknown", info.targetName t, insn.offset⟩ := by
  have none : (info.imports.find? fun entry => entry.kind = .func ∧ entry.typeIndex = none) = none := by
    refine List.find?_eq_none.mpr fun entry member found => ?_
    obtain ⟨func, absent⟩ := of_decide_eq_true found
    exact absurd (consistent.typed entry member func) (by rw [absent]; exact Bool.false_ne_true)
  have before : (t : Int) - info.importedFunctionCount < 0 := by omega
  unfold ParsedWasmModule.hostCall
  rw [if_pos calls.1, calls.2]
  dsimp only
  rw [if_pos (by omega), if_pos before, none]
  rfl

/-- No import is found for a call, so that only imports by the substitutes for a missing one are named. -/
theorem host_calls_iff (parsed : parseWasmModule wasm turns = some info) :
    ∀ functions, analyzeFunctionBodies turns wasm = some functions →
      ((∀ fn ∈ functions, Attributed info fn.instructions) ↔
        ∀ fn ∈ functions, ∀ insn ∈ fn.instructions, ∀ t < info.importedFunctionCount, Calls insn t →
          ∃ imported, info.functionImports[t]? = some imported ∧
            imported.module = ascii "unknown" ∧ imported.name = info.targetName t) := by
  intro functions _
  have consistent := consistent_parseWasmModule parsed
  refine forall₂_congr fun fn _ => forall₂_congr fun insn _ => forall₂_congr fun t foreign => ?_
  refine forall_congr' fun calls => exists_congr fun imported => and_congr_right fun _ => ?_
  rw [hostCall_eq consistent calls foreign, Option.some.injEq, HostCallInfo.mk.injEq]
  exact ⟨fun ⟨module, name, _⟩ => ⟨module.symm, name.symm⟩, fun ⟨module, name⟩ => ⟨module.symm, name.symm, rfl⟩⟩

/-- A function of its own that calls an imported one. -/
def calling (module name : Buffer) : Buffer :=
  header ++ [0x01, 0x04, 0x01, 0x60, 0x00, 0x00] ++
    0x02 :: UInt8.ofNat (5 + module.length + name.length) :: 0x01 :: UInt8.ofNat module.length :: module ++
    UInt8.ofNat name.length :: name ++ [0x00, 0x00] ++
    [0x03, 0x02, 0x01, 0x00, 0x0a, 0x06, 0x01, 0x04, 0x00, 0x10, 0x00, 0x0b]

theorem host_calls_unknown : ∃ info functions, parseWasmModule (calling (ascii "unknown") (ascii "func_0")) 10 = some info ∧
    analyzeFunctionBodies 10 (calling (ascii "unknown") (ascii "func_0")) = some functions ∧
    ∀ fn ∈ functions, Attributed info fn.instructions := by
  have read : (parseWasmModule (calling (ascii "unknown") (ascii "func_0")) 10).map (fun info =>
      (info.functionImports.map fun entry => (entry.module, entry.name), info.importedFunctionCount, info.targetName 0)) =
      some ([(ascii "unknown", ascii "func_0")], 1, ascii "func_0") := by decide
  obtain ⟨info, parsed, read⟩ := Option.map_eq_some_iff.mp read
  obtain ⟨functions, analyzed⟩ : ∃ functions,
      analyzeFunctionBodies 10 (calling (ascii "unknown") (ascii "func_0")) = some functions :=
    Option.isSome_iff_exists.mp (by decide)
  refine ⟨info, functions, parsed, analyzed, (host_calls_iff parsed functions analyzed).mpr ?_⟩
  intro fn _ insn _ t foreign _
  obtain ⟨imports, count, target⟩ : _ ∧ _ ∧ _ := by simpa only [Prod.mk.injEq] using read
  obtain ⟨entry, only, same⟩ := List.map_eq_singleton_iff.mp imports
  obtain rfl : t = 0 := by omega
  refine ⟨entry, by rw [only]; rfl, congrArg Prod.fst same, ?_⟩
  exact (congrArg Prod.snd same).trans target.symm

/-- An import that is called is not found. -/
theorem host_calls_env : ∃ info functions, parseWasmModule (calling (ascii "env") (ascii "f")) 10 = some info ∧
    analyzeFunctionBodies 10 (calling (ascii "env") (ascii "f")) = some functions ∧
    ¬ ∀ fn ∈ functions, Attributed info fn.instructions := by
  have read : (parseWasmModule (calling (ascii "env") (ascii "f")) 10).map (fun info =>
      (info.functionImports.map fun entry => (entry.module, entry.name), info.importedFunctionCount)) =
      some ([(ascii "env", ascii "f")], 1) := by decide
  obtain ⟨info, parsed, read⟩ := Option.map_eq_some_iff.mp read
  obtain ⟨imports, count⟩ : _ ∧ _ := by simpa only [Prod.mk.injEq] using read
  obtain ⟨entry, only, same⟩ := List.map_eq_singleton_iff.mp imports
  have decoded : (analyzeFunctionBodies 10 (calling (ascii "env") (ascii "f"))).map (fun functions =>
      functions.map fun fn => fn.instructions.map fun insn => (insn.mnemonic, insn.immediates)) =
      some [[("call", [0]), ("end", [])]] := by decide
  obtain ⟨functions, analyzed, decoded⟩ := Option.map_eq_some_iff.mp decoded
  obtain ⟨fn, rfl, body⟩ := List.map_eq_singleton_iff.mp decoded
  refine ⟨info, [fn], parsed, analyzed, fun attributed => ?_⟩
  obtain ⟨insn, rest, shape, call, -⟩ := List.map_eq_cons_iff.mp body
  obtain ⟨mnemonic, immediates⟩ := Prod.mk.inj call
  have calls : Calls insn 0 := ⟨mnemonic, by rw [immediates]; rfl⟩
  obtain ⟨imported, first, found⟩ := attributed fn List.mem_cons_self insn (by rw [shape]; exact List.mem_cons_self) 0
    (by rw [count]; decide) calls
  rw [only] at first
  cases first
  rw [hostCall_eq (consistent_parseWasmModule parsed) calls (by rw [count]; decide)] at found
  have unknown : ascii "unknown" = entry.module := (HostCallInfo.mk.inj (Option.some.inj found)).1
  exact absurd (unknown.trans (congrArg Prod.fst same)) (by decide)

end Octraban.Wasm
