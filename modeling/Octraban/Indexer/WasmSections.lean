import Octraban.Indexer.WasmModule

/-! The sections of a WebAssembly module that wasm-decompiler.ts reads, as they are encoded. Numbers keep the
encoding they have. Types, instructions and the other sections are left open: every well-formed module is one
of these. -/
namespace Octraban.WasmSections
open Wasm Leb128

/-- Items with their number before them. -/
structure Vec (α : Type) where
  count : U32
  items : List α
  counted : count.value = items.length

def Vec.bytes {α : Type} (encode : α → List UInt8) (v : Vec α) : List UInt8 := v.count.bytes ++ v.items.flatMap encode

/-- A text, or any other bytes. -/
abbrev Name := Vec UInt8

def Name.bytes (name : Name) : List UInt8 := Vec.bytes (fun byte => [byte]) name

structure Limits where
  shared : Bool
  min : U32
  max : Option U32

def Limits.flags (l : Limits) : UInt8 := (if l.max.isSome then 1 else 0) + if l.shared then 2 else 0

def Limits.bytes (l : Limits) : List UInt8 := l.flags :: (l.min.bytes ++ l.max.elim [] Encoding.bytes)

/-- The types of values have a byte each. -/
structure FuncType where
  params : Name
  results : Name

def FuncType.bytes (type : FuncType) : List UInt8 := 0x60 :: (type.params.bytes ++ type.results.bytes)

inductive Desc where
  | func (type : U32)
  | table (elemType : UInt8) (limits : Limits)
  | memory (limits : Limits)
  | global (type : UInt8) (isMutable : Bool)

def mutability (isMutable : Bool) : UInt8 := if isMutable then 1 else 0

def Desc.tag : Desc → UInt8
  | func _ => 0
  | table _ _ => 1
  | memory _ => 2
  | global _ _ => 3

def Desc.bytes : Desc → List UInt8
  | func type => type.bytes
  | table elemType limits => elemType :: limits.bytes
  | memory limits => limits.bytes
  | global type isMutable => [type, mutability isMutable]

structure Import where
  module : Name
  name : Name
  desc : Desc

def Import.bytes (i : Import) : List UInt8 := i.module.bytes ++ (i.name.bytes ++ i.desc.tag :: i.desc.bytes)

/-- The initialiser is any expression, and the end of it. -/
structure Global where
  type : UInt8
  isMutable : Bool
  init : List UInt8

def Global.bytes (g : Global) : List UInt8 := g.type :: mutability g.isMutable :: (g.init ++ [0x0b])

structure Export where
  name : Name
  kind : ExternKind
  index : U32

def kindByte : ExternKind → UInt8
  | .func => 0
  | .table => 1
  | .memory => 2
  | .global => 3
  | .unknown => 4

def Export.bytes (e : Export) : List UInt8 := e.name.bytes ++ kindByte e.kind :: e.index.bytes

/-- A function and its name. -/
structure Naming where
  index : U32
  name : Name

def Naming.bytes (n : Naming) : List UInt8 := n.index.bytes ++ n.name.bytes

inductive SubContent where
  | functions (names : Vec Naming)
  | other (id : UInt8) (notFunctions : id ≠ 1) (content : List UInt8)

def SubContent.id : SubContent → UInt8
  | functions _ => 1
  | other id _ _ => id

def SubContent.bytes : SubContent → List UInt8
  | functions names => names.bytes Naming.bytes
  | other _ _ content => content

structure Subsection where
  size : U32
  content : SubContent
  sized : size.value = content.bytes.length

def Subsection.bytes (s : Subsection) : List UInt8 := s.content.id :: (s.size.bytes ++ s.content.bytes)

inductive Content where
  | types (v : Vec FuncType)
  | imports (v : Vec Import)
  | functions (v : Vec U32)
  | memories (v : Vec Limits)
  | globals (v : Vec Global)
  | exports (v : Vec Export)
  | names (name : Name) (called : name.items = ascii "name") (subsections : List Subsection)
  | custom (name : Name) (called : name.items ≠ ascii "name") (content : List UInt8)
  | other (id : UInt8) (unread : id ∉ [0, 1, 2, 3, 5, 6, 7]) (content : List UInt8)

def Content.id : Content → UInt8
  | types _ => 1
  | imports _ => 2
  | functions _ => 3
  | memories _ => 5
  | globals _ => 6
  | exports _ => 7
  | names _ _ _ | custom _ _ _ => 0
  | other id _ _ => id

def Content.bytes : Content → List UInt8
  | types v => v.bytes FuncType.bytes
  | imports v => v.bytes Import.bytes
  | functions v => v.bytes Encoding.bytes
  | memories v => v.bytes Limits.bytes
  | globals v => v.bytes Global.bytes
  | exports v => v.bytes Export.bytes
  | names name _ subsections => name.bytes ++ subsections.flatMap Subsection.bytes
  | custom name _ content => name.bytes ++ content
  | other _ _ content => content

structure Section where
  size : U32
  content : Content
  sized : size.value = content.bytes.length

def Section.bytes (s : Section) : List UInt8 := s.content.id :: (s.size.bytes ++ s.content.bytes)

/-- No types follow an import. -/
structure Module where
  sections : List Section
  ordered : sections.Pairwise fun s later => s.content.id = 2 → later.content.id ≠ 1

def Module.bytes (m : Module) : List UInt8 := header ++ m.sections.flatMap Section.bytes

/-! ### What is encoded -/

def FuncType.entry (type : FuncType) : WasmTypeEntry := ⟨type.params.items.map valTypeName, type.results.items.map valTypeName⟩

def number (x : U32) : Int := x.value

def Import.entry (types : List WasmTypeEntry) (i : Import) : WasmImportEntry :=
  let module := i.module.items
  let name := i.name.items
  match i.desc with
  | .func type =>
    { module, name, kind := .func, typeIndex := some (number type), type := types[type.value]?.map typeSignature,
      host := some (ascii "soroban_" <+: module ∨ module = ascii "env") }
  | .table elemType limits =>
    { module, name, kind := .table, metadata := some ⟨some elemType, number limits.min, limits.max.map number, none⟩ }
  | .memory limits =>
    { module, name, kind := .memory
      metadata := some ⟨none, number limits.min, limits.max.map number, some limits.shared⟩ }
  | .global type isMutable => { module, name, kind := .global, type := some (valTypeName type), isMutable := some isMutable }

def Limits.entry (l : Limits) : WasmMemoryEntry := ⟨number l.min, l.max.map number, l.shared⟩

def Export.entry (e : Export) : WasmExportEntry := ⟨e.name.items, e.kind, number e.index⟩

def Section.types (s : Section) : List WasmTypeEntry :=
  match s.content with
  | .types v => v.items.map FuncType.entry
  | _ => []

def Section.imports (s : Section) : List Import :=
  match s.content with
  | .imports v => v.items
  | _ => []

def Section.functionTypeIndices (s : Section) : List Int :=
  match s.content with
  | .functions v => v.items.map number
  | _ => []

def Section.exports (s : Section) : List WasmExportEntry :=
  match s.content with
  | .exports v => v.items.map Export.entry
  | _ => []

def Section.globals (s : Section) : List (String × Bool) :=
  match s.content with
  | .globals v => v.items.map fun g => (valTypeName g.type, g.isMutable)
  | _ => []

namespace Module
variable (m : Module)

def types : List WasmTypeEntry := m.sections.flatMap Section.types

def imports : List WasmImportEntry := (m.sections.flatMap Section.imports).map (Import.entry m.types)

def functionTypeIndices : List Int := m.sections.flatMap Section.functionTypeIndices

def exports : List WasmExportEntry := m.sections.flatMap Section.exports

def globals : List WasmGlobalEntry :=
  (m.sections.flatMap Section.globals).mapIdx fun i g => ⟨i, g.1, g.2⟩

end Module

end Octraban.WasmSections
