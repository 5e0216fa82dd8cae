import Octraban.Core.OrderedMap
import Octraban.Core.Reader
import Octraban.Indexer.WasmDecompiler

/-! parseWasmModule of wasm-decompiler.ts and parseImportSection of wasm-abi-extractor.ts. Texts are the bytes
that they are decoded from. Nothing stands for an exception, and for a size or length from 2^31 on, which the
source reads as negative and goes back by. -/
namespace Octraban.Wasm
open Reader (many)

def ascii (text : String) : Buffer := text.toList.map fun c => UInt8.ofNat c.toNat

inductive ExternKind where
  | func
  | table
  | memory
  | global
  | unknown
  deriving DecidableEq

structure WasmTypeEntry where
  params : List String
  results : List String
  deriving DecidableEq

structure ImportMetadata where
  elemType : Option UInt8
  min : Int
  max : Option Int
  shared : Option Bool
  deriving DecidableEq

/-- Where a field is not set it is undefined. -/
structure WasmImportEntry where
  module : Buffer
  name : Buffer
  kind : ExternKind
  typeIndex : Option Int := none
  type : Option String := none
  host : Option Bool := none
  metadata : Option ImportMetadata := none
  isMutable : Option Bool := none
  deriving DecidableEq

structure WasmExportEntry where
  name : Buffer
  kind : ExternKind
  index : Int
  deriving DecidableEq

structure WasmMemoryEntry where
  min : Int
  max : Option Int
  shared : Bool
  deriving DecidableEq

structure WasmGlobalEntry where
  index : Nat
  type : String
  isMutable : Bool
  deriving DecidableEq

structure ParsedWasmModule where
  types : List WasmTypeEntry := []
  imports : List WasmImportEntry := []
  exports : List WasmExportEntry := []
  memories : List WasmMemoryEntry := []
  globals : List WasmGlobalEntry := []
  functionTypeIndices : List Int := []
  importedFunctionCount : Nat := 0
  functionNameMap : OrderedMap Int Buffer := OrderedMap.empty

variable (wasm : Buffer)

/-! ### Parts of entries -/

def uleb : Reader Int := fun pos => some ((readUleb128 wasm pos).1, pos + (readUleb128 wasm pos).2)

/-- `wasm[pos++]` -/
def byte : Reader (Option UInt8) := fun pos => some (wasm[pos]?, pos + 1)

def readString : Reader Buffer := fun pos =>
  let (length, lenBytes) := readUleb128 wasm pos
  let start := pos + lenBytes
  if length < 0 then none else some ((wasm.drop start).take length.toNat, start + length.toNat)

/-- `valTypeName(wasm[pos++])` -/
def valType : Reader String := do
  match ← byte wasm with
  | some code => pure (valTypeName code)
  | none => failure

/-- The loop over the entries of a section or a list. -/
def entries {α : Type} (entry : Reader α) : Reader (List α) := do
  let count ← uleb wasm
  many entry count.toNat

/-- The flags, the least size, and the greatest where a flag tells. -/
def readLimits : Reader (Int × Int × Option Int) := do
  let flags ← uleb wasm
  let min ← uleb wasm
  if flags % 2 = 1 then
    let max ← uleb wasm
    pure (flags, min, some max)
  else pure (flags, min, none)

def isShared (flags : Int) : Bool := flags / 2 % 2 = 1

def typeSignature (type : WasmTypeEntry) : String :=
  "(" ++ ", ".intercalate type.params ++ ") -> (" ++ ", ".intercalate type.results ++ ")"

/-! ### Entries -/

def readType : Reader WasmTypeEntry := do
  let form ← byte wasm
  if form ≠ some 0x60 then failure
  let params ← entries wasm (valType wasm)
  let results ← entries wasm (valType wasm)
  pure ⟨params, results⟩

/-- A negative index is less than the number of types, but there is no type to write out. -/
def signatureAt (types : List WasmTypeEntry) (typeIndex : Int) : Option (Option String) :=
  if typeIndex < 0 then none else some (types[typeIndex.toNat]?.map typeSignature)

def readImport (types : List WasmTypeEntry) : Reader WasmImportEntry := do
  let module ← readString wasm
  let name ← readString wasm
  let kind ← byte wasm
  if kind = some 0x00 then
    let typeIndex ← uleb wasm
    let type ← (signatureAt types typeIndex : Option _)
    pure { module, name, kind := .func, typeIndex := some typeIndex, type,
           host := some (ascii "soroban_" <+: module ∨ module = ascii "env") }
  else if kind = some 0x01 then
    let elemType ← byte wasm
    let (_, min, max) ← readLimits wasm
    pure { module, name, kind := .table, metadata := some ⟨elemType, min, max, none⟩ }
  else if kind = some 0x02 then
    let (flags, min, max) ← readLimits wasm
    pure { module, name, kind := .memory, metadata := some ⟨none, min, max, some (isShared flags)⟩ }
  else if kind = some 0x03 then
    let typeName ← valType wasm
    let mutability ← byte wasm
    pure { module, name, kind := .global, type := some typeName, isMutable := some (mutability = some 1) }
  else pure { module, name, kind := .unknown }

def readMemory : Reader WasmMemoryEntry := do
  let (flags, min, max) ← readLimits wasm
  pure ⟨min, max, isShared flags⟩

/-- `while (wasm[pos++] !== 0x0b && pos < sectionEnd)`, with enough turns for what is left of the section. -/
def skipInit (sectionEnd : Nat) : Nat → Nat → Nat
  | 0, pos => pos + 1
  | turns + 1, pos => if wasm[pos]? ≠ some 0x0b ∧ pos + 1 < sectionEnd then skipInit sectionEnd turns (pos + 1) else pos + 1

def readGlobal (sectionEnd : Nat) : Reader (String × Bool) := do
  let typeName ← valType wasm
  let mutability ← byte wasm
  modify fun pos => skipInit wasm sectionEnd (sectionEnd - pos) pos
  pure (typeName, mutability = some 1)

def exportKindName (kind : Option UInt8) : ExternKind :=
  if kind = some 0x00 then .func
  else if kind = some 0x01 then .table
  else if kind = some 0x02 then .memory
  else if kind = some 0x03 then .global
  else .unknown

def readExport : Reader WasmExportEntry := do
  let name ← readString wasm
  let kind ← byte wasm
  let index ← uleb wasm
  pure ⟨name, exportKindName kind, index⟩

def readFunctionName : Reader (Int × Buffer) := do
  let idx ← uleb wasm
  let name ← readString wasm
  pure (idx, name)

/-! ### Sections -/

/-- The loop over the subsections of a name section; each has its id, so what is left of the section is enough
turns. -/
def readNames (sectionEnd : Nat) : Nat → Nat → OrderedMap Int Buffer → Option (OrderedMap Int Buffer)
  | 0, _, functionNameMap => some functionNameMap
  | turns + 1, pos, functionNameMap =>
    if pos < sectionEnd then
      let (subSize, subSizeLen) := readUleb128 wasm (pos + 1)
      let content := pos + 1 + subSizeLen
      if wasm[pos]? = some 1 then do
        let (names, next) ← (entries wasm (readFunctionName wasm)).run content
        readNames sectionEnd turns next (names.foldl (fun map named => map.set named.1 named.2) functionNameMap)
      else if subSize < 0 then none
      else readNames sectionEnd turns (content + subSize.toNat) functionNameMap
    else some functionNameMap

/-- What an exported function is called. -/
def setExportName (functionNameMap : OrderedMap Int Buffer) (entry : WasmExportEntry) : OrderedMap Int Buffer :=
  if entry.kind = .func then functionNameMap.set entry.index entry.name else functionNameMap

def ParsedWasmModule.addImports (info : ParsedWasmModule) (imports : List WasmImportEntry) : ParsedWasmModule :=
  { info with
    imports := info.imports ++ imports
    importedFunctionCount := info.importedFunctionCount + (imports.filter fun entry => entry.kind = .func).length }

def ParsedWasmModule.addGlobals (info : ParsedWasmModule) (globals : List (String × Bool)) : ParsedWasmModule :=
  { info with
    globals := info.globals ++ globals.mapIdx fun i entry => ⟨info.globals.length + i, entry.1, entry.2⟩ }

def ParsedWasmModule.addExports (info : ParsedWasmModule) (exports : List WasmExportEntry) : ParsedWasmModule :=
  { info with
    exports := info.exports ++ exports
    functionNameMap := exports.foldl setExportName info.functionNameMap }

/-- The switch over the id of a section. -/
def parseSection (sectionId : UInt8) (start sectionEnd : Nat) (info : ParsedWasmModule) : Option ParsedWasmModule :=
  if sectionId = 1 then
    ((entries wasm (readType wasm)).run start).map fun read => { info with types := info.types ++ read.1 }
  else if sectionId = 2 then
    ((entries wasm (readImport wasm info.types)).run start).map fun read => info.addImports read.1
  else if sectionId = 3 then
    ((entries wasm (uleb wasm)).run start).map fun read =>
      { info with functionTypeIndices := info.functionTypeIndices ++ read.1 }
  else if sectionId = 5 then
    ((entries wasm (readMemory wasm)).run start).map fun read => { info with memories := info.memories ++ read.1 }
  else if sectionId = 6 then
    ((entries wasm (readGlobal wasm sectionEnd)).run start).map fun read => info.addGlobals read.1
  else if sectionId = 7 then
    ((entries wasm (readExport wasm)).run start).map fun read => info.addExports read.1
  else if sectionId = 0 then do
    let (customName, pos) ← (readString wasm).run start
    if customName = ascii "name" then
      (readNames wasm sectionEnd (sectionEnd - pos) pos info.functionNameMap).map fun functionNameMap =>
        { info with functionNameMap }
    else some info
  else some info

/-- The loop over the sections, for so many turns at most. -/
def parseWasmModule.loop : Nat → Nat → ParsedWasmModule → Option ParsedWasmModule
  | 0, _, _ => none
  | turns + 1, offset, info =>
    if offset < wasm.length then do
      let sectionId ← wasm[offset]?
      let (sectionSize, sizeLen) := readUleb128 wasm (offset + 1)
      let start := offset + 1 + sizeLen
      if sectionSize < 0 then none
      else
        let sectionEnd := start + sectionSize.toNat
        let info ← parseSection wasm sectionId start sectionEnd info
        loop turns sectionEnd info
    else some info

def parseWasmModule (turns : Nat) : Option ParsedWasmModule := parseWasmModule.loop wasm turns 8 {}

/-! ### The import section of the ABI extractor -/

structure WasmImport where
  module : Buffer
  name : Buffer
  kind : ExternKind
  typeIndex : Option Int
  deriving DecidableEq

/-- `kindMap[kindByte] ?? 'function'` -/
def kindMap (kindByte : Option UInt8) : ExternKind :=
  if kindByte = some 1 then .table
  else if kindByte = some 2 then .memory
  else if kindByte = some 3 then .global
  else .func

/-- Two bytes are skipped for what is not a function. -/
def parseImport : Reader WasmImport := do
  let module ← readString wasm
  let name ← readString wasm
  let kindByte ← byte wasm
  if kindByte = some 0 then
    let typeIndex ← uleb wasm
    pure ⟨module, name, kindMap kindByte, some typeIndex⟩
  else
    modify (· + 2)
    pure ⟨module, name, kindMap kindByte, none⟩

def parseImportSection (data : Buffer) : Option (List WasmImport) :=
  ((entries data (parseImport data)).run 0).map Prod.fst

def importCount (imports : List WasmImport) : Nat := (imports.filter fun entry => entry.kind = .func).length

end Octraban.Wasm
