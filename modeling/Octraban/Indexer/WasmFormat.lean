import Octraban.Core.Leb128

/-! The binary format of WebAssembly modules, as far as code sections and the instructions
with a name in wasm-decompiler.ts go. Numbers keep the encoding they have, so a module
determines its bytes. Nesting and types are left open: every well-formed module is one of
these. -/
namespace Octraban.Wasm

abbrev Leb := Leb128.Encoding

abbrev U32 := Leb 5

/-- Instructions without operands. -/
def isPlain (opcode : UInt8) : Bool :=
  opcode ∈ [0x00, 0x01, 0x05, 0x0b, 0x0f, 0x1a, 0x1b] || (0x45 ≤ opcode && opcode ≤ 0x5a) ||
    (0x67 ≤ opcode && opcode ≤ 0x8a) || (0xa7 ≤ opcode && opcode ≤ 0xb1)

/-- The indices and then the zero bytes that follow a sub-opcode of 0xfc: none after the
saturating truncations, then memory.init, data.drop, memory.copy, memory.fill, table.init,
elem.drop, table.copy, table.grow, table.size, table.fill. -/
def miscShape : Nat → Option (Nat × Nat)
  | 0 | 1 | 2 | 3 | 4 | 5 | 6 | 7 => some (0, 0)
  | 8 => some (1, 1)
  | 9 => some (1, 0)
  | 10 => some (0, 2)
  | 11 => some (0, 1)
  | 12 => some (2, 0)
  | 13 => some (1, 0)
  | 14 => some (2, 0)
  | 15 | 16 | 17 => some (1, 0)
  | _ => none

inductive Instr where
  | plain (opcode : UInt8) (listed : isPlain opcode = true)
  | block (opcode : UInt8) (listed : opcode ∈ [0x02, 0x03, 0x04]) (type : Leb 5)
  | index (opcode : UInt8)
      (listed : opcode ∈ [0x0c, 0x0d, 0x10, 0x12, 0x20, 0x21, 0x22, 0x23, 0x24, 0x25, 0x26]) (x : U32)
  | indirect (opcode : UInt8) (listed : opcode ∈ [0x11, 0x13]) (type table : U32)
  | brTable (count : U32) (labels : List U32) (counted : labels.length = count.value + 1)
  | access (opcode : UInt8) (listed : 0x28 ≤ opcode ∧ opcode ≤ 0x3e) (align offset : U32)
  | pages (opcode : UInt8) (listed : opcode ∈ [0x3f, 0x40])
  | i32Const (x : Leb 5)
  | i64Const (x : Leb 10)
  | f32Const (bits : List UInt8) (wide : bits.length = 4)
  | f64Const (bits : List UInt8) (wide : bits.length = 8)
  | misc (sub : U32) (indices : List U32) (zeros : Nat) (shape : miscShape sub.value = some (indices.length, zeros))

namespace Instr

def opcode : Instr → UInt8
  | plain opcode _ | block opcode _ _ | index opcode _ _ | indirect opcode _ _ _ | access opcode _ _ _ |
    pages opcode _ => opcode
  | brTable _ _ _ => 0x0e
  | i32Const _ => 0x41
  | i64Const _ => 0x42
  | f32Const _ _ => 0x43
  | f64Const _ _ => 0x44
  | misc _ _ _ _ => 0xfc

def operands : Instr → List UInt8
  | plain _ _ => []
  | block _ _ type => type.bytes
  | index _ _ x => x.bytes
  | indirect _ _ type table => type.bytes ++ table.bytes
  | brTable count labels _ => count.bytes ++ labels.flatMap Leb128.Encoding.bytes
  | access _ _ align offset => align.bytes ++ offset.bytes
  | pages _ _ => [0]
  | i32Const x => x.bytes
  | i64Const x => x.bytes
  | f32Const bits _ => bits
  | f64Const bits _ => bits
  | misc sub indices zeros _ => sub.bytes ++ (indices.flatMap Leb128.Encoding.bytes ++ List.replicate zeros 0)

def bytes (instr : Instr) : List UInt8 := instr.opcode :: instr.operands

/-- No memory access, and nothing after a sub-opcode of 0xfc. -/
def aligned : Instr → Bool
  | access _ _ _ _ => false
  | misc sub _ _ _ => sub.value < 8
  | _ => true

end Instr

structure Local where
  count : U32
  type : UInt8

def Local.bytes (decl : Local) : List UInt8 := decl.count.bytes ++ [decl.type]

structure Function where
  size : U32
  localCount : U32
  locals : List Local
  body : List Instr
  counted : localCount.value = locals.length
  sized : size.value =
    (localCount.bytes ++ locals.flatMap Local.bytes ++ body.flatMap Instr.bytes).length

/-- What stands before the instructions. -/
def Function.head (f : Function) : List UInt8 := f.localCount.bytes ++ f.locals.flatMap Local.bytes

def Function.content (f : Function) : List UInt8 := f.head ++ f.body.flatMap Instr.bytes

def Function.bytes (f : Function) : List UInt8 := f.size.bytes ++ f.content

structure CodeSection where
  size : U32
  count : U32
  functions : List Function
  counted : count.value = functions.length
  sized : size.value = (count.bytes ++ functions.flatMap Function.bytes).length

inductive Section where
  | code (content : CodeSection)
  | other (id : UInt8) (notCode : id ≠ 10) (size : U32) (content : List UInt8)
      (sized : size.value = content.length)

def CodeSection.content (code : CodeSection) : List UInt8 := code.count.bytes ++ code.functions.flatMap Function.bytes

def Section.bytes : Section → List UInt8
  | code content => 10 :: (content.size.bytes ++ content.content)
  | other id _ size content _ => id :: (size.bytes ++ content)

structure Module where
  sections : List Section

/-- Magic number and version. -/
def header : List UInt8 := [0x00, 0x61, 0x73, 0x6d, 0x01, 0x00, 0x00, 0x00]

def Module.bytes (m : Module) : List UInt8 := header ++ m.sections.flatMap Section.bytes

/-- The functions of a code section, each with the offset of its content. -/
def placeFunctions : Nat → List Function → List (Nat × Function)
  | _, [] => []
  | offset, f :: rest => (offset + f.size.bytes.length, f) :: placeFunctions (offset + f.bytes.length) rest

def Section.placed (offset : Nat) : Section → List (Nat × Function)
  | code content =>
    placeFunctions (offset + 1 + content.size.bytes.length + content.count.bytes.length) content.functions
  | other .. => []

def placeSections : Nat → List Section → List (Nat × Function)
  | _, [] => []
  | offset, sec :: rest => sec.placed offset ++ placeSections (offset + sec.bytes.length) rest

def Module.placed (m : Module) : List (Nat × Function) := placeSections header.length m.sections

/-- The instructions of a body, each with its offset. -/
def listing : Nat → List Instr → List (Nat × Instr)
  | _, [] => []
  | offset, instr :: rest => (offset, instr) :: listing (offset + instr.bytes.length) rest

def Function.listing (start : Nat) (f : Function) : List (Nat × Instr) := Wasm.listing (start + f.head.length) f.body

/-- The instructions that the binary encodes. -/
def Module.listing (m : Module) : List (Nat × Instr) := m.placed.flatMap fun placed => placed.2.listing placed.1

end Octraban.Wasm
