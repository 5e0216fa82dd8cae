import Octraban.Indexer.Disassembly
import Octraban.Indexer.WasmSections

/-! What parseWasmModule and parseImportSection read off the sections of a module. -/
namespace Octraban.WasmSections
open Wasm Leb128 Reader

/-- The signed numbers of 32 bits hold it. -/
def Small (x : U32) : Prop := x.value < 2 ^ 31

def Limits.Small (l : Limits) : Prop := WasmSections.Small l.min ∧ ∀ x ∈ l.max, WasmSections.Small x

def Desc.Small : Desc → Prop
  | func type => WasmSections.Small type
  | table _ limits | memory limits => limits.Small
  | global _ _ => True

variable {wasm : Buffer} {limit offset start sectionEnd turns : Nat} {α β : Type}

/-! ### Parts of entries -/

theorem uleb_reads {x : U32} (small : Small x) : Reads wasm limit (uleb wasm) x.bytes (number x) := by
  intro offset holds _
  exact congrArg (fun read : Int × Nat => some (read.1, offset + read.2)) (readUleb128_eq holds small)

theorem byte_reads (b : UInt8) : Reads wasm limit (byte wasm) [b] (some b) := by
  intro offset holds _
  have here : wasm[offset]? = some b := (Holds.cons.mp holds).1
  exact congrArg (fun found => some (found, offset + 1)) here

theorem valType_reads (code : UInt8) : Reads wasm limit (valType wasm) [code] (valTypeName code) :=
  (byte_reads code).bind_pure rfl

/-- A run has fewer items than there are bytes. -/
theorem count_small {encode : α → List UInt8} {v : Vec α} (short : wasm.length < 2 ^ 31)
    (nonempty : ∀ item, 0 < (encode item).length) (holds : Holds wasm offset (v.bytes encode)) : Small v.count := by
  have items := length_le_flatMap v.items nonempty
  rw [Small, v.counted]
  by_cases empty : v.items.length = 0
  · rw [empty]
    decide
  · have inside := Holds.le_length (Holds.append.mp holds).2 (by omega)
    omega

theorem entries_reads {encode : α → List UInt8} {f : α → β} {entry : Reader β} {v : Vec α} (short : wasm.length < 2 ^ 31)
    (nonempty : ∀ item, 0 < (encode item).length) (each : ∀ item ∈ v.items, Reads wasm limit entry (encode item) (f item)) :
    Reads wasm limit (entries wasm entry) (v.bytes encode) (v.items.map f) := by
  intro offset holds inside
  have count : Reads wasm limit (uleb wasm) v.count.bytes (number v.count) := uleb_reads (count_small short nonempty holds)
  have rest : Reads wasm limit (Reader.many entry (number v.count).toNat) (v.items.flatMap encode) (v.items.map f) := by
    rw [show (number v.count).toNat = v.items.length from v.counted]
    exact Reads.many each
  exact count.bind rest offset holds inside

theorem entries_returns {encode : α → List UInt8} {f : α → β} {entry : Reader β} {v : Vec α} (short : wasm.length < 2 ^ 31)
    (nonempty : ∀ item, 0 < (encode item).length) (last : ∀ item ∈ v.items, Returns wasm limit entry (encode item) (f item))
    (each : ∀ item ∈ v.items.dropLast, Reads wasm limit entry (encode item) (f item)) :
    Returns wasm limit (entries wasm entry) (v.bytes encode) (v.items.map f) := by
  intro offset holds inside
  have count : Reads wasm limit (uleb wasm) v.count.bytes (number v.count) := uleb_reads (count_small short nonempty holds)
  have rest : Returns wasm limit (Reader.many entry (number v.count).toNat) (v.items.flatMap encode) (v.items.map f) := by
    rw [show (number v.count).toNat = v.items.length from v.counted]
    exact Returns.many last each
  exact count.bind_returns rest offset holds inside

theorem name_bytes (name : Name) : name.bytes = name.count.bytes ++ name.items := by
  rw [Name.bytes, Vec.bytes, List.flatMap_singleton']

theorem name_reads (short : wasm.length < 2 ^ 31) (name : Name) :
    Reads wasm limit (readString wasm) name.bytes name.items := by
  intro offset holds _
  have run : Holds wasm offset (Vec.bytes (fun byte => [byte]) name) := holds
  have small : Small name.count := count_small short (fun byte => (List.length_pos_of_mem (List.mem_singleton_self byte))) run
  rw [name_bytes] at holds ⊢
  obtain ⟨count, items⟩ := Holds.append.mp holds
  have read := readUleb128_eq count small
  have content : (wasm.drop (offset + name.count.bytes.length)).take name.items.length = name.items :=
    (List.prefix_iff_eq_take.mp items).symm
  have positive : ¬ ((name.count.value : Nat) : Int) < 0 := by omega
  unfold readString StateT.run
  dsimp only
  rw [read]
  dsimp only
  rw [if_neg positive, Int.toNat_natCast, name.counted, content, List.length_append, Nat.add_assoc]

theorem names_reads (short : wasm.length < 2 ^ 31) (types : Name) :
    Reads wasm limit (entries wasm (valType wasm)) types.bytes (types.items.map valTypeName) :=
  entries_reads short (fun _ => Nat.zero_lt_one) fun code _ => valType_reads code

theorem flags_spec (l : Limits) : l.flags.toNat < 128 ∧ ((l.flags.toNat : Int) % 2 = 1 ↔ l.max.isSome) ∧
    isShared l.flags.toNat = l.shared := by
  have all : ∀ maximal shared : Bool, let flags : UInt8 := (if maximal then 1 else 0) + if shared then 2 else 0
      flags.toNat < 128 ∧ ((flags.toNat : Int) % 2 = 1 ↔ maximal) ∧ isShared flags.toNat = shared := by decide
  exact all l.max.isSome l.shared

/-- A number of one byte. -/
theorem digit_reads {b : UInt8} (low : b.toNat < 128) : Reads wasm limit (uleb wasm) [b] b.toNat := by
  have value : valueOf [b] = b.toNat := by
    simp only [valueOf, Nat.mul_zero, Nat.add_zero]
    exact Nat.mod_eq_of_lt low
  let x : U32 := ⟨[], b, fun _ member => absurd member List.not_mem_nil, low, Nat.succ_pos 4⟩
  have reads : Reads wasm limit (uleb wasm) [b] (valueOf [b] : Nat) := uleb_reads (x := x) (by
    rw [Small, show x.value = b.toNat from value]
    omega)
  rwa [value] at reads

theorem limits_reads {l : Limits} (small : l.Small) : Reads wasm limit (readLimits wasm) l.bytes
    (l.flags.toNat, number l.min, l.max.map number) := by
  obtain ⟨low, odd, -⟩ := flags_spec l
  obtain ⟨minSmall, maxSmall⟩ := small
  refine (digit_reads low).bind ((uleb_reads minSmall).bind ?_)
  cases found : l.max with
  | none =>
    rw [found] at odd
    rw [if_neg (by rw [odd]; exact Bool.false_ne_true)]
    exact Reads.pure _
  | some max =>
    rw [found] at odd
    rw [if_pos (odd.mpr rfl)]
    exact (uleb_reads (maxSmall max found)).bind_pure rfl

theorem readType_reads (short : wasm.length < 2 ^ 31) (type : FuncType) :
    Reads wasm limit (readType wasm) type.bytes type.entry := by
  refine (byte_reads 0x60).bind ((names_reads short type.params).bind ?_)
  exact (names_reads short type.results).bind_pure rfl

/-! ### Entries -/

theorem readImport_reads (short : wasm.length < 2 ^ 31) (types : List WasmTypeEntry) {i : Import} (small : i.desc.Small) :
    Reads wasm limit (readImport wasm types) i.bytes (i.entry types) := by
  obtain ⟨module, name, desc⟩ := i
  refine (name_reads short module).bind ((name_reads short name).bind ((byte_reads desc.tag).bind ?_))
  cases desc with
  | func type =>
    have signature : signatureAt types (number type) = some (types[type.value]?.map typeSignature) := if_neg (by
      rw [number]
      omega)
    refine (uleb_reads small).bind_pure ?_
    rw [signature]
    rfl
  | table elemType limits => exact (byte_reads elemType).bind ((limits_reads small).bind_pure rfl)
  | memory limits =>
    refine (limits_reads small).bind_pure ?_
    dsimp only
    rw [(flags_spec limits).2.2]
    rfl
  | global type isMutable =>
    refine (valType_reads type).bind ((byte_reads (mutability isMutable)).bind_pure ?_)
    cases isMutable <;> rfl

theorem readMemory_reads {l : Limits} (small : l.Small) : Reads wasm limit (readMemory wasm) l.bytes l.entry := by
  refine (limits_reads small).bind_pure ?_
  dsimp only
  rw [(flags_spec l).2.2]
  rfl

theorem exportKindName_kindByte (kind : ExternKind) : exportKindName (some (kindByte kind)) = kind := by
  cases kind <;> rfl

theorem readExport_reads (short : wasm.length < 2 ^ 31) {e : Export} (small : Small e.index) :
    Reads wasm limit (readExport wasm) e.bytes e.entry := by
  refine (name_reads short e.name).bind ((byte_reads (kindByte e.kind)).bind ((uleb_reads small).bind_pure ?_))
  rw [exportKindName_kindByte]
  rfl

theorem readFunctionName_reads (short : wasm.length < 2 ^ 31) {n : Naming} (small : Small n.index) :
    Reads wasm limit (readFunctionName wasm) n.bytes (number n.index, n.name.items) :=
  (uleb_reads small).bind ((name_reads short n.name).bind_pure rfl)

/-- The end is found where no byte of the expression is the one that ends it. -/
theorem skipInit_eq {init : List UInt8} (plain : 0x0b ∉ init) (holds : Holds wasm offset (init ++ [0x0b]))
    (inside : offset + init.length < sectionEnd) (enough : init.length ≤ turns) :
    skipInit wasm sectionEnd turns offset = offset + init.length + 1 := by
  induction init generalizing offset turns with
  | nil =>
    have here : wasm[offset]? = some 0x0b := (Holds.cons.mp holds).1
    cases turns with
    | zero => rfl
    | succ turns =>
      rw [skipInit, here, if_neg fun ⟨other, _⟩ => other rfl]
      rfl
  | cons b init ih =>
    obtain ⟨here, holds⟩ := Holds.cons.mp holds
    obtain ⟨other, plain⟩ := not_or.mp (mt List.mem_cons.mpr plain)
    rw [List.length_cons] at inside enough ⊢
    cases turns with
    | zero => omega
    | succ turns =>
      rw [skipInit, here, if_pos ⟨fun same => other (Option.some.inj same).symm, by omega⟩,
        ih plain holds (by omega) (by omega)]
      omega

theorem readGlobal_run (sectionEnd : Nat) {g : Global} (holds : Holds wasm offset g.bytes) :
    (readGlobal wasm sectionEnd).run offset = some ((valTypeName g.type, g.isMutable),
      skipInit wasm sectionEnd (sectionEnd - (offset + 2)) (offset + 2)) := by
  obtain ⟨first, rest⟩ := Holds.cons.mp holds
  have second : wasm[offset + 1]? = some (mutability g.isMutable) := (Holds.cons.mp rest).1
  have type : (valType wasm).run offset = some (valTypeName g.type, offset + 1) := by
    have reads : Reads wasm (offset + 1) (valType wasm) [g.type] (valTypeName g.type) := valType_reads g.type
    exact reads offset (Holds.cons.mpr ⟨first, List.nil_prefix⟩) le_rfl
  have isMutable : decide (some (mutability g.isMutable) = some 1) = g.isMutable := by
    cases g.isMutable <;> rfl
  rw [readGlobal, StateT.run_bind, type]
  have bit : (byte wasm).run (offset + 1) = some (some (mutability g.isMutable), offset + 2) :=
    congrArg (fun found => some (found, offset + 2)) second
  dsimp only [Option.bind_eq_bind, Option.bind_some]
  rw [StateT.run_bind, bit]
  exact congrArg (fun found => some ((_, found), _)) isMutable

theorem readGlobal_returns (g : Global) :
    Returns wasm sectionEnd (readGlobal wasm sectionEnd) g.bytes (valTypeName g.type, g.isMutable) :=
  fun _ holds _ => ⟨_, readGlobal_run sectionEnd holds⟩

theorem readGlobal_reads {g : Global} (plain : 0x0b ∉ g.init) :
    Reads wasm sectionEnd (readGlobal wasm sectionEnd) g.bytes (valTypeName g.type, g.isMutable) := by
  intro offset holds inside
  have length : g.bytes.length = g.init.length + 3 := by rw [Global.bytes, List.length_cons, List.length_cons, List.length_append]; rfl
  have rest : Holds wasm (offset + 2) (g.init ++ [0x0b]) := (Holds.cons.mp (Holds.cons.mp holds).2).2
  rw [readGlobal_run sectionEnd holds, skipInit_eq plain rest (by omega) (by omega), length]
  congr 2
  omega

/-! ### Sections -/

def SubContent.Small : SubContent → Prop
  | functions v => ∀ n ∈ v.items, WasmSections.Small n.index
  | other _ _ _ => True

/-- Every index and size that is read is small. -/
def Content.Small : Content → Prop
  | imports v => ∀ i ∈ v.items, i.desc.Small
  | functions v => ∀ x ∈ v.items, WasmSections.Small x
  | memories v => ∀ l ∈ v.items, l.Small
  | exports v => ∀ e ∈ v.items, WasmSections.Small e.index
  | names _ _ subsections => ∀ s ∈ subsections, s.content.Small
  | types _ | globals _ | custom _ _ _ | other _ _ _ => True

/-- Only the initialiser of the last global has the byte of the end in its expression. -/
def Content.Plain : Content → Prop
  | globals v => ∀ g ∈ v.items.dropLast, 0x0b ∉ g.init
  | _ => True

def SubContent.read (names : OrderedMap Int Buffer) : SubContent → OrderedMap Int Buffer
  | functions v => (v.items.map fun n => (number n.index, n.name.items)).foldl (fun map named => map.set named.1 named.2) names
  | other _ _ _ => names

/-- What a section adds to a parsed module. -/
def Content.read (info : ParsedWasmModule) : Content → ParsedWasmModule
  | types v => { info with types := info.types ++ v.items.map FuncType.entry }
  | imports v => info.addImports (v.items.map (Import.entry info.types))
  | functions v => { info with functionTypeIndices := info.functionTypeIndices ++ v.items.map number }
  | memories v => { info with memories := info.memories ++ v.items.map Limits.entry }
  | globals v => info.addGlobals (v.items.map fun g => (valTypeName g.type, g.isMutable))
  | exports v => info.addExports (v.items.map Export.entry)
  | names _ _ subsections =>
    { info with functionNameMap := subsections.foldl (fun map s => s.content.read map) info.functionNameMap }
  | custom _ _ _ | other _ _ _ => info

def Section.read (info : ParsedWasmModule) (s : Section) : ParsedWasmModule := s.content.read info

theorem run_of_reads {p : Reader α} {bytes : List UInt8} {x : α} (reads : Reads wasm (start + bytes.length) p bytes x)
    (holds : Holds wasm start bytes) : p.run start = some (x, start + bytes.length) := reads start holds le_rfl

theorem small_size {size : U32} {bytes : List UInt8} (short : wasm.length < 2 ^ 31) (sized : size.value = bytes.length)
    (holds : Holds wasm offset bytes) : Small size := by
  rw [Small, sized]
  by_cases empty : bytes.length = 0
  · omega
  · have inside := Holds.le_length holds (by omega)
    omega

theorem naming_length (n : Naming) : 0 < n.bytes.length := by
  have positive := n.index.length_pos
  rw [Naming.bytes, List.length_append]
  omega

theorem readNames_eq (short : wasm.length < 2 ^ 31) {subsections : List Subsection}
    (small : ∀ s ∈ subsections, s.content.Small) (names : OrderedMap Int Buffer)
    (holds : Holds wasm offset (subsections.flatMap Subsection.bytes))
    (ends : sectionEnd = offset + (subsections.flatMap Subsection.bytes).length)
    (enough : subsections.length ≤ turns) :
    readNames wasm sectionEnd turns offset names = some (subsections.foldl (fun map s => s.content.read map) names) := by
  induction subsections generalizing offset turns names with
  | nil =>
    rw [List.flatMap_nil, List.length_nil, Nat.add_zero] at ends
    cases turns with
    | zero => rfl
    | succ turns => exact if_neg (by omega)
  | cons s rest ih =>
    obtain ⟨here, later⟩ := List.forall_mem_cons.mp small
    rw [List.flatMap_cons, Holds.append] at holds
    rw [List.flatMap_cons, List.length_append] at ends
    obtain ⟨id, body⟩ := Holds.cons.mp holds.1
    obtain ⟨size, content⟩ := Holds.append.mp body
    have sizeRead := readUleb128_eq size (small_size short s.sized content)
    have length : s.bytes.length = 1 + s.size.bytes.length + s.content.bytes.length := by
      rw [Subsection.bytes, List.length_cons, List.length_append]
      omega
    cases turns with
    | zero => cases enough
    | succ turns =>
      rw [readNames, if_pos (by omega), sizeRead]
      have others := ih later (s.content.read names) holds.2 (by omega) (Nat.le_of_succ_le_succ enough)
      have next : offset + 1 + s.size.bytes.length + s.content.bytes.length = offset + s.bytes.length := by omega
      obtain ⟨size, content', sized⟩ := s
      cases content' with
      | functions v =>
        have read := run_of_reads (entries_reads short naming_length fun n member =>
          readFunctionName_reads short (here n member)) content
        have named : wasm[offset]? = some 1 := id
        dsimp only
        rw [if_pos named, read]
        dsimp only [Option.bind_eq_bind, Option.bind_some]
        exact (congrArg (fun offset => readNames wasm sectionEnd turns offset _) next).trans others
      | other other notFunctions bytes =>
        have unnamed : wasm[offset]? ≠ some 1 := by
          rw [id]
          exact fun same => notFunctions (Option.some.inj same)
        dsimp only
        rw [if_neg unnamed, if_neg (Int.not_lt.mpr (Int.natCast_nonneg _)), Int.toNat_natCast, sized, next]
        exact others

theorem type_length (type : FuncType) : 0 < type.bytes.length := Nat.succ_pos _

theorem limits_length (l : Limits) : 0 < l.bytes.length := Nat.succ_pos _

theorem global_length (g : Global) : 0 < g.bytes.length := Nat.succ_pos _

theorem import_length (i : Import) : 0 < i.bytes.length := by
  rw [Import.bytes, List.length_append, List.length_append, List.length_cons]
  omega

theorem export_length (e : Export) : 0 < e.bytes.length := by
  rw [Export.bytes, List.length_append, List.length_cons]
  omega

theorem subsection_length (s : Subsection) : 0 < s.bytes.length := Nat.succ_pos _

theorem parseSection_custom (short : wasm.length < 2 ^ 31) {name : Name} (holds : Holds wasm start name.bytes)
    {info : ParsedWasmModule} : parseSection wasm 0 start sectionEnd info =
      if name.items = ascii "name" then
        (readNames wasm sectionEnd (sectionEnd - (start + name.bytes.length)) (start + name.bytes.length)
          info.functionNameMap).map fun functionNameMap => { info with functionNameMap }
      else some info := by
  have read := run_of_reads (name_reads short name) holds
  unfold parseSection
  dsimp only [show ¬ (0 : UInt8) = 1 by decide]
  rw [read]
  rfl

/-- A section adds what it encodes. -/
theorem parseSection_eq (short : wasm.length < 2 ^ 31) {content : Content} (small : content.Small) (plain : content.Plain)
    (info : ParsedWasmModule) (holds : Holds wasm start content.bytes) :
    parseSection wasm content.id start (start + content.bytes.length) info = some (content.read info) := by
  cases content with
  | types v =>
    have read := run_of_reads (entries_reads short type_length fun type _ => readType_reads short type) holds
    exact congrArg (Option.map _) read
  | imports v =>
    have read := run_of_reads (entries_reads short import_length fun i member =>
      readImport_reads short info.types (small i member)) holds
    exact congrArg (Option.map _) read
  | functions v =>
    have read := run_of_reads (entries_reads short (fun x => x.length_pos) fun x member => uleb_reads (small x member)) holds
    exact congrArg (Option.map _) read
  | memories v =>
    have read := run_of_reads (entries_reads short limits_length fun l member => readMemory_reads (small l member)) holds
    exact congrArg (Option.map _) read
  | globals v =>
    obtain ⟨next, read⟩ := entries_returns short global_length (fun g _ => readGlobal_returns g)
      (fun g member => readGlobal_reads (plain g member)) start holds le_rfl
    exact congrArg (Option.map _) read
  | exports v =>
    have read := run_of_reads (entries_reads short export_length fun e member => readExport_reads short (small e member)) holds
    exact congrArg (Option.map _) read
  | names name called subsections =>
    obtain ⟨title, rest⟩ := Holds.append.mp holds
    have enough := length_le_flatMap subsections subsection_length
    have names := readNames_eq short small info.functionNameMap rest rfl enough
    have whole : (Content.names name called subsections).bytes.length =
        name.bytes.length + (subsections.flatMap Subsection.bytes).length := List.length_append
    have left : start + (name.bytes.length + (subsections.flatMap Subsection.bytes).length) - (start + name.bytes.length) =
        (subsections.flatMap Subsection.bytes).length := by omega
    rw [Content.id, parseSection_custom short title, if_pos called, whole, left, ← Nat.add_assoc, names]
    rfl
  | custom name called bytes =>
    rw [Content.id, parseSection_custom short (Holds.append.mp holds).1, if_neg called]
    rfl
  | other id unread bytes =>
    simp only [List.mem_cons, List.not_mem_nil, or_false, not_or] at unread
    simp [Content.id, Content.read, parseSection, unread]

theorem parseWasmModule_loop_eq (short : wasm.length < 2 ^ 31) {sections : List Section}
    (small : ∀ s ∈ sections, s.content.Small) (plain : ∀ s ∈ sections, s.content.Plain)
    (holds : Holds wasm offset (sections.flatMap Section.bytes))
    (ends : wasm.length = offset + (sections.flatMap Section.bytes).length) (enough : sections.length < turns)
    (info : ParsedWasmModule) : parseWasmModule.loop wasm turns offset info =
      some (sections.foldl Section.read info) := by
  induction sections generalizing offset turns info with
  | nil =>
    rw [List.flatMap_nil, List.length_nil, Nat.add_zero] at ends
    cases turns with
    | zero => cases enough
    | succ turns => exact if_neg (by omega)
  | cons s rest ih =>
    obtain ⟨smallHere, smallRest⟩ := List.forall_mem_cons.mp small
    obtain ⟨plainHere, plainRest⟩ := List.forall_mem_cons.mp plain
    rw [List.flatMap_cons, Holds.append] at holds
    rw [List.flatMap_cons, List.length_append] at ends
    obtain ⟨id, body⟩ := Holds.cons.mp holds.1
    obtain ⟨size, content⟩ := Holds.append.mp body
    have sizeRead := readUleb128_eq size (small_size short s.sized content)
    have length : s.bytes.length = 1 + s.size.bytes.length + s.content.bytes.length := by
      rw [Section.bytes, List.length_cons, List.length_append]
      omega
    cases turns with
    | zero => cases enough
    | succ turns =>
      have next : offset + 1 + s.size.bytes.length + s.content.bytes.length = offset + s.bytes.length := by omega
      rw [parseWasmModule.loop, if_pos (by omega), id, sizeRead]
      dsimp only [Option.bind_eq_bind, Option.bind_some]
      rw [if_neg (Int.not_lt.mpr (Int.natCast_nonneg _)), Int.toNat_natCast, s.sized,
        parseSection_eq short smallHere plainHere info content, next]
      exact ih smallRest plainRest holds.2 (by omega) (Nat.lt_of_succ_lt_succ enough) (s.content.read info)

/-! ### What is added -/

variable {sections : List Section} {info : ParsedWasmModule}

/-- What the sections add to a list one after another. -/
theorem foldl_read (f : ParsedWasmModule → List α) (g : Section → List α)
    (each : ∀ info (s : Section), f (Section.read info s) = f info ++ g s) (sections : List Section) (info : ParsedWasmModule) :
    f (sections.foldl Section.read info) = f info ++ sections.flatMap g := by
  induction sections generalizing info with
  | nil => exact (List.append_nil _).symm
  | cons s rest ih => rw [List.foldl_cons, ih, each, List.flatMap_cons, List.append_assoc]

theorem types_read (info : ParsedWasmModule) (s : Section) : (Section.read info s).types = info.types ++ s.types := by
  obtain ⟨size, content, sized⟩ := s
  cases content <;> first | rfl | exact (List.append_nil _).symm

theorem functionTypeIndices_read (info : ParsedWasmModule) (s : Section) :
    (Section.read info s).functionTypeIndices = info.functionTypeIndices ++ s.functionTypeIndices := by
  obtain ⟨size, content, sized⟩ := s
  cases content <;> first | rfl | exact (List.append_nil _).symm

theorem exports_read (info : ParsedWasmModule) (s : Section) :
    (Section.read info s).exports = info.exports ++ s.exports := by
  obtain ⟨size, content, sized⟩ := s
  cases content <;> first | rfl | exact (List.append_nil _).symm

theorem imports_read (info : ParsedWasmModule) (s : Section) :
    (Section.read info s).imports = info.imports ++ s.imports.map (Import.entry info.types) := by
  obtain ⟨size, content, sized⟩ := s
  cases content <;> first | rfl | exact (List.append_nil _).symm

theorem imports_foldl (ordered : sections.Pairwise fun s later => s.content.id = 2 → later.content.id ≠ 1)
    (info : ParsedWasmModule) : (sections.foldl Section.read info).imports =
      info.imports ++ (sections.flatMap Section.imports).map
        (Import.entry (sections.foldl Section.read info).types) := by
  induction sections generalizing info with
  | nil => exact (List.append_nil _).symm
  | cons s rest ih =>
    obtain ⟨first, ordered⟩ := List.pairwise_cons.mp ordered
    rw [List.foldl_cons, ih ordered, imports_read, List.flatMap_cons, List.map_append, List.append_assoc]
    congr 2
    by_cases imports : s.imports = []
    · rw [imports]
      rfl
    · -- after the imports no type is added
      have id : s.content.id = 2 := by
        unfold Section.imports at imports
        split at imports
        · rename_i v same
          rw [same]
          rfl
        · exact absurd rfl imports
      have none : rest.flatMap Section.types = [] := by
        refine List.flatMap_eq_nil_iff.mpr fun later member => ?_
        have other := first later member id
        unfold Section.types
        split
        · rename_i v same
          rw [same] at other
          exact absurd rfl other
        · rfl
      have here : s.types = [] := by
        unfold Section.types
        split
        · rename_i v same
          rw [same] at id
          cases id
        · rfl
      rw [foldl_read ParsedWasmModule.types Section.types types_read, types_read, none, here, List.append_nil,
        List.append_nil]

theorem globals_foldl (info : ParsedWasmModule) : (sections.foldl Section.read info).globals =
    info.globals ++ (sections.flatMap Section.globals).mapIdx fun i g => ⟨info.globals.length + i, g.1, g.2⟩ := by
  induction sections generalizing info with
  | nil => exact (List.append_nil _).symm
  | cons s rest ih =>
    have here : (Section.read info s).globals =
        info.globals ++ s.globals.mapIdx fun i g => ⟨info.globals.length + i, g.1, g.2⟩ := by
      obtain ⟨size, content, sized⟩ := s
      cases content <;> first | rfl | exact (List.append_nil _).symm
    rw [List.foldl_cons, ih, here, List.flatMap_cons, List.mapIdx_append, List.append_assoc]
    congr 2
    refine List.mapIdx_eq_mapIdx_iff.mpr fun i _ => ?_
    rw [List.length_append, List.length_mapIdx]
    congr 1
    omega

/-! ### The import section of the ABI extractor -/

/-- Two bytes stand for what is not a function. -/
def Desc.Narrow (desc : Desc) : Prop := desc.tag ≠ 0 → desc.bytes.length = 2

def Content.Narrow : Content → Prop
  | imports v => ∀ i ∈ v.items.dropLast, i.desc.Narrow
  | _ => True

/-- What the ABI extractor keeps of an import. -/
def abi (entry : WasmImportEntry) : WasmImport := ⟨entry.module, entry.name, entry.kind, entry.typeIndex⟩

variable {types : List WasmTypeEntry}

theorem skip_returns {bytes : List UInt8} (x : α) : Returns wasm limit (do modify (· + 2); pure x) bytes x :=
  fun offset _ _ => ⟨offset + 2, rfl⟩

theorem skip_reads {bytes : List UInt8} (two : bytes.length = 2) (x : α) :
    Reads wasm limit (do modify (· + 2); pure x) bytes x := by
  intro offset _ _
  rw [two]
  rfl

theorem parseImport_reads (short : wasm.length < 2 ^ 31) {i : Import} (small : i.desc.Small) (narrow : i.desc.Narrow) :
    Reads wasm limit (parseImport wasm) i.bytes (abi (i.entry types)) := by
  obtain ⟨module, name, desc⟩ := i
  refine (name_reads short module).bind ((name_reads short name).bind ((byte_reads desc.tag).bind ?_))
  cases desc with
  | func type => exact (uleb_reads small).bind_pure rfl
  | table elemType limits => exact skip_reads (narrow (show (1 : UInt8) ≠ 0 by decide)) _
  | memory limits => exact skip_reads (narrow (show (2 : UInt8) ≠ 0 by decide)) _
  | global type isMutable => exact skip_reads (narrow (show (3 : UInt8) ≠ 0 by decide)) _

theorem parseImport_returns (short : wasm.length < 2 ^ 31) {i : Import} (small : i.desc.Small) :
    Returns wasm limit (parseImport wasm) i.bytes (abi (i.entry types)) := by
  obtain ⟨module, name, desc⟩ := i
  refine (name_reads short module).bind_returns ((name_reads short name).bind_returns
    ((byte_reads desc.tag).bind_returns ?_))
  cases desc with
  | func type =>
    refine Reads.returns ?_
    exact (uleb_reads small).bind_pure rfl
  | table elemType limits => exact skip_returns _
  | memory limits => exact skip_returns _
  | global type isMutable => exact skip_returns _

theorem parseImportSection_eq {v : Vec Import} (short : (v.bytes Import.bytes).length < 2 ^ 31)
    (small : ∀ i ∈ v.items, i.desc.Small) (narrow : ∀ i ∈ v.items.dropLast, i.desc.Narrow) :
    parseImportSection (v.bytes Import.bytes) = some ((v.items.map (Import.entry types)).map abi) := by
  have returns : Returns (v.bytes Import.bytes) (v.bytes Import.bytes).length (entries _ (parseImport (v.bytes Import.bytes)))
      (v.bytes Import.bytes) (v.items.map fun i => abi (i.entry types)) :=
    entries_returns short import_length (fun i member => parseImport_returns short (small i member)) fun i member =>
      parseImport_reads short (small i (List.dropLast_subset v.items member)) (narrow i member)
  obtain ⟨next, read⟩ := returns 0 (Holds.whole _) (by omega)
  rw [parseImportSection, read, List.map_map]
  rfl

/-! ### Places -/

/-- Each entry but the last is left where the next one stands. -/
def Content.InPlace : Content → Prop
  | imports v => ∀ before i after, v.items = before ++ i :: after → after ≠ [] →
    let data := v.bytes Import.bytes
    let offset := v.count.bytes.length + (before.flatMap Import.bytes).length
    ∃ entry, (parseImport data).run offset = some (entry, offset + i.bytes.length)
  | globals v => ∀ wasm start, Holds wasm start (v.bytes Global.bytes) →
    ∀ before g after, v.items = before ++ g :: after → after ≠ [] →
      let offset := start + v.count.bytes.length + (before.flatMap Global.bytes).length
      ∃ entry, (readGlobal wasm (start + (v.bytes Global.bytes).length)).run offset = some (entry, offset + g.bytes.length)
  | _ => True

theorem mem_dropLast_iff {items : List α} {x : α} :
    x ∈ items.dropLast ↔ ∃ before after, items = before ++ x :: after ∧ after ≠ [] := by
  constructor
  · intro member
    obtain ⟨before, between, split⟩ := List.append_of_mem member
    have nonempty : items ≠ [] := fun none => by rw [none] at member; cases member
    refine ⟨before, between ++ [items.getLast nonempty], ?_, List.append_ne_nil_of_right_ne_nil _ (List.cons_ne_nil _ _)⟩
    have whole := List.dropLast_append_getLast nonempty
    rw [split, List.append_assoc, List.cons_append] at whole
    exact whole.symm
  · rintro ⟨before, after, rfl, nonempty⟩
    rw [List.dropLast_append_of_ne_nil (List.cons_ne_nil _ _), List.dropLast_cons_of_ne_nil nonempty]
    exact List.mem_append_right _ List.mem_cons_self

/-- A byte of the end in the expression ends it too early. -/
theorem skipInit_lt {init : List UInt8} (early : 0x0b ∈ init) (holds : Holds wasm offset init)
    (enough : init.length ≤ turns) : skipInit wasm sectionEnd turns offset ≤ offset + init.length := by
  induction init generalizing offset turns with
  | nil => cases early
  | cons b init ih =>
    obtain ⟨here, holds⟩ := Holds.cons.mp holds
    rw [List.length_cons] at enough ⊢
    cases turns with
    | zero => omega
    | succ turns =>
      rw [skipInit]
      split
      · rename_i more
        have later : 0x0b ∈ init := by
          rcases List.mem_cons.mp early with rfl | later
          · exact absurd here more.1
          · exact later
        have bound := ih later holds (Nat.le_of_succ_le_succ enough)
        omega
      · omega

theorem readGlobal_inPlace_iff {g : Global} (holds : Holds wasm offset g.bytes) (inside : offset + g.bytes.length ≤ sectionEnd) :
    (∃ entry, (readGlobal wasm sectionEnd).run offset = some (entry, offset + g.bytes.length)) ↔ 0x0b ∉ g.init := by
  constructor
  · rintro ⟨entry, run⟩ early
    rw [readGlobal_run sectionEnd holds] at run
    have ends : skipInit wasm sectionEnd (sectionEnd - (offset + 2)) (offset + 2) = offset + g.bytes.length :=
      congrArg Prod.snd (Option.some.inj run)
    have length : g.bytes.length = g.init.length + 3 := by
      rw [Global.bytes, List.length_cons, List.length_cons, List.length_append]
      rfl
    have rest : Holds wasm (offset + 2) g.init := (Holds.append.mp (Holds.cons.mp (Holds.cons.mp holds).2).2).1
    have bound : skipInit wasm sectionEnd (sectionEnd - (offset + 2)) (offset + 2) ≤ offset + 2 + g.init.length :=
      skipInit_lt early rest (by omega)
    omega
  · intro plain
    exact ⟨_, readGlobal_reads plain offset holds inside⟩

theorem parseImport_skips (short : wasm.length < 2 ^ 31) {i : Import} (other : i.desc.tag ≠ 0)
    (holds : Holds wasm offset i.bytes) : ∃ entry, (parseImport wasm).run offset =
      some (entry, offset + i.module.bytes.length + i.name.bytes.length + 3) := by
  obtain ⟨module, rest⟩ := Holds.append.mp holds
  obtain ⟨name, desc⟩ := Holds.append.mp rest
  have tag : (byte wasm).run (offset + i.module.bytes.length + i.name.bytes.length) =
      some (some i.desc.tag, offset + i.module.bytes.length + i.name.bytes.length + 1) :=
    congrArg (fun found => some (found, _)) (Holds.cons.mp desc).1
  refine ⟨⟨i.module.items, i.name.items, kindMap (some i.desc.tag), none⟩, ?_⟩
  rw [parseImport, (name_reads short i.module).run_bind module le_rfl, (name_reads short i.name).run_bind name le_rfl,
    StateT.run_bind, tag]
  dsimp only [Option.bind_eq_bind, Option.bind_some]
  rw [if_neg fun zero => other (Option.some.inj zero)]
  rfl

theorem parseImport_inPlace_iff (short : wasm.length < 2 ^ 31) {i : Import} (small : i.desc.Small)
    (holds : Holds wasm offset i.bytes) :
    (∃ entry, (parseImport wasm).run offset = some (entry, offset + i.bytes.length)) ↔ i.desc.Narrow := by
  constructor
  · rintro ⟨entry, run⟩
    intro other
    obtain ⟨entry', skipped⟩ := parseImport_skips short other holds
    have ends := congrArg Prod.snd (Option.some.inj (skipped.symm.trans run))
    rw [Import.bytes, List.length_append, List.length_append, List.length_cons] at ends
    omega
  · intro narrow
    have reads : Reads wasm (offset + i.bytes.length) (parseImport wasm) i.bytes (abi (i.entry [])) :=
      parseImport_reads short small narrow
    exact ⟨_, reads offset holds le_rfl⟩

theorem holds_item {encode : α → List UInt8} {v : Vec α} {before after : List α} {x : α}
    (split : v.items = before ++ x :: after) (holds : Holds wasm start (v.bytes encode)) :
    Holds wasm (start + v.count.bytes.length + (before.flatMap encode).length) (encode x) ∧
      start + v.count.bytes.length + (before.flatMap encode).length + (encode x).length ≤
        start + (v.bytes encode).length := by
  rw [Vec.bytes, split, List.flatMap_append, List.flatMap_cons] at holds ⊢
  obtain ⟨-, items⟩ := Holds.append.mp holds
  obtain ⟨-, rest⟩ := Holds.append.mp items
  refine ⟨(Holds.append.mp rest).1, ?_⟩
  simp only [List.length_append]
  omega

/-- A section is read in place where neither an initialiser nor a descriptor is cut elsewhere. -/
theorem inPlace_iff {content : Content} (short : content.bytes.length < 2 ^ 31) (small : content.Small) :
    content.InPlace ↔ content.Plain ∧ content.Narrow := by
  cases content with
  | imports v =>
    refine Iff.trans ?_ (and_iff_right trivial).symm
    have each {before after : List Import} {i : Import} (split : v.items = before ++ i :: after) :
        (∃ entry, (parseImport (v.bytes Import.bytes)).run (v.count.bytes.length + (before.flatMap Import.bytes).length) =
          some (entry, v.count.bytes.length + (before.flatMap Import.bytes).length + i.bytes.length)) ↔ i.desc.Narrow := by
      have holds := (holds_item split (Holds.whole (v.bytes Import.bytes))).1
      rw [Nat.zero_add] at holds
      exact parseImport_inPlace_iff short (small i (by rw [split]; simp)) holds
    constructor
    · intro inPlace i member
      obtain ⟨before, after, split, more⟩ := mem_dropLast_iff.mp member
      exact (each split).mp (inPlace before i after split more)
    · intro narrow before i after split more
      exact (each split).mpr (narrow i (mem_dropLast_iff.mpr ⟨before, after, split, more⟩))
  | globals v =>
    refine Iff.trans ?_ (and_iff_left trivial).symm
    constructor
    · intro inPlace g member
      obtain ⟨before, after, split, more⟩ := mem_dropLast_iff.mp member
      have run := inPlace _ 0 (Holds.whole _) before g after split more
      obtain ⟨holds, inside⟩ := holds_item split (Holds.whole (v.bytes Global.bytes))
      exact (readGlobal_inPlace_iff holds inside).mp run
    · intro plain wasm start holds before g after split more
      obtain ⟨holds, inside⟩ := holds_item split holds
      exact (readGlobal_inPlace_iff holds inside).mpr (plain g (mem_dropLast_iff.mpr ⟨before, after, split, more⟩))
  | _ => exact iff_of_true trivial ⟨trivial, trivial⟩

/-! ### Whole modules -/

/-- Both parsers return what the sections encode. -/
structure Exact (m : Module) : Prop where
  module : ∀ turns > m.sections.length, ∃ info, parseWasmModule m.bytes turns = some info ∧
    info.imports = m.imports ∧ info.functionTypeIndices = m.functionTypeIndices ∧ info.exports = m.exports ∧
    info.globals = m.globals
  abi : ∀ s ∈ m.sections, ∀ v, s.content = .imports v → ∃ imports, parseImportSection s.content.bytes = some imports ∧
    imports = (v.items.map (Import.entry m.types)).map abi ∧
    importCount imports = (v.items.filter fun i => (i.entry m.types).kind = .func).length

theorem length_content_le {m : Module} {s : Section} (member : s ∈ m.sections) :
    s.content.bytes.length ≤ m.bytes.length := by
  have part : s.bytes.Sublist (m.sections.flatMap Section.bytes) :=
    List.sublist_flatten_of_mem (List.mem_map_of_mem member)
  have inside := part.length_le
  rw [Section.bytes, List.length_cons, List.length_append] at inside
  rw [Module.bytes, List.length_append]
  omega

theorem exact_of_inPlace {m : Module} (short : m.bytes.length < 2 ^ 31) (small : ∀ s ∈ m.sections, s.content.Small)
    (cut : ∀ s ∈ m.sections, s.content.Plain ∧ s.content.Narrow) : Exact m := by
  constructor
  · intro turns enough
    refine ⟨m.sections.foldl Section.read {}, ?_, ?_⟩
    · have holds := (Holds.append.mp (Holds.whole m.bytes)).2
      exact parseWasmModule_loop_eq short small (fun s member => (cut s member).1) holds List.length_append
        enough {}
    · have types : (m.sections.foldl Section.read {}).types = m.types :=
        foldl_read ParsedWasmModule.types Section.types types_read m.sections {}
      refine ⟨?_, ?_, ?_, ?_⟩
      · rw [imports_foldl m.ordered, types]
        rfl
      · exact foldl_read ParsedWasmModule.functionTypeIndices _ functionTypeIndices_read m.sections {}
      · exact foldl_read ParsedWasmModule.exports _ exports_read m.sections {}
      · rw [globals_foldl]
        refine List.mapIdx_eq_mapIdx_iff.mpr fun i _ => ?_
        congr 1
        exact Nat.zero_add i
  · rintro ⟨size, content, sized⟩ member v rfl
    have part : (v.bytes Import.bytes).length < 2 ^ 31 :=
      (length_content_le member).trans_lt short
    refine ⟨_, parseImportSection_eq part (small _ member) (cut _ member).2, rfl, ?_⟩
    rw [importCount, List.map_map, List.filter_map, List.length_map]
    rfl

/-- Every entry but the last of its section is left where the next one stands exactly where no initialiser holds
the byte of the end before its end and what is not a function has two bytes; both parsers are then exact. -/
theorem sections_exact (m : Module) (short : m.bytes.length < 2 ^ 31) (small : ∀ s ∈ m.sections, s.content.Small) :
    ((∀ s ∈ m.sections, s.content.InPlace) ↔ ∀ s ∈ m.sections, s.content.Plain ∧ s.content.Narrow) ∧
    ((∀ s ∈ m.sections, s.content.Plain ∧ s.content.Narrow) → Exact m) := by
  refine ⟨forall₂_congr fun s member => ?_, exact_of_inPlace short small⟩
  exact inPlace_iff ((length_content_le member).trans_lt short) (small s member)

local instance sevenBits : NeZero 128 := ⟨by decide⟩

def env : Name := ⟨oneByte 3, ascii "env", rfl⟩

def letter (c : Char) : Name := ⟨oneByte 1, [UInt8.ofNat c.toNat], rfl⟩

def noArguments : Section :=
  ⟨oneByte 4, .types ⟨oneByte 1, [⟨⟨oneByte 0, [], rfl⟩, ⟨oneByte 0, [], rfl⟩⟩], rfl⟩, rfl⟩

/-- A memory of one to two pages, and a function. -/
def limited : Vec Import :=
  ⟨oneByte 2, [⟨env, letter 'm', .memory ⟨false, oneByte 1, some (oneByte 2)⟩⟩, ⟨env, letter 'f', .func (oneByte 0)⟩], rfl⟩

/-- The initialisers are `i32.const 11` and `i32.const 1`. -/
def shifted : Module where
  sections := [noArguments, ⟨oneByte 19, .imports limited, rfl⟩,
    ⟨oneByte 11, .globals ⟨oneByte 2, [⟨0x7f, false, [0x41, 0x0b]⟩, ⟨0x7f, false, [0x41, 0x01]⟩], rfl⟩, rfl⟩]
  ordered := by decide

/-- The limit of the memory becomes part of the next import, and 11 the end of the first initialiser. -/
theorem shifted_misread : ¬ Exact shifted ∧
    (parseImportSection (limited.bytes Import.bytes)).map (fun imports => imports.map WasmImport.typeIndex) ≠
      some [none, some 0] ∧
    (parseWasmModule shifted.bytes 10).map (fun info => info.globals.map WasmGlobalEntry.type) ≠ some ["i32", "i32"] := by
  have imports : (parseImportSection (limited.bytes Import.bytes)).map (fun imports => imports.map WasmImport.typeIndex) ≠
      some [none, some 0] := by decide
  refine ⟨fun exact => ?_, imports, by decide⟩
  obtain ⟨read, parsed, same, -⟩ := exact.abi ⟨oneByte 19, .imports limited, rfl⟩ (by simp [shifted]) limited rfl
  refine imports ?_
  rw [show parseImportSection (limited.bytes Import.bytes) = some read from parsed, same]
  rfl

/-- No limit, and the initialiser with 11 last. -/
def inOrder : Module where
  sections := [noArguments,
    ⟨oneByte 18, .imports ⟨oneByte 2, [⟨env, letter 'm', .memory ⟨false, oneByte 1, none⟩⟩,
      ⟨env, letter 'f', .func (oneByte 0)⟩], rfl⟩, rfl⟩,
    ⟨oneByte 11, .globals ⟨oneByte 2, [⟨0x7f, false, [0x41, 0x01]⟩, ⟨0x7f, false, [0x41, 0x0b]⟩], rfl⟩, rfl⟩]
  ordered := by decide

theorem inOrder_exact : Exact inOrder := by
  refine (sections_exact inOrder (by decide) ?_).2 ?_
  · refine List.forall_mem_cons.mpr ⟨trivial, List.forall_mem_cons.mpr ⟨?_, List.forall_mem_singleton.mpr trivial⟩⟩
    have page : Small (oneByte 1) := by
      unfold Small
      decide
    have zero : Small (oneByte 0) := by
      unfold Small
      decide
    exact List.forall_mem_cons.mpr ⟨⟨page, fun _ max => by cases max⟩, List.forall_mem_singleton.mpr zero⟩
  · refine List.forall_mem_cons.mpr ⟨⟨trivial, trivial⟩, List.forall_mem_cons.mpr ⟨⟨trivial, ?_⟩,
      List.forall_mem_singleton.mpr ⟨?_, trivial⟩⟩⟩
    · exact List.forall_mem_singleton.mpr fun _ => rfl
    · exact List.forall_mem_singleton.mpr (by decide)

/-- A float of which three bytes read like the end and the next global. -/
def repeating : Module where
  sections := [⟨oneByte 25, .globals ⟨oneByte 2, [⟨0x7c, false, [0x44, 0x0b, 0x7c, 0x00, 0x00, 0x00, 0x00, 0x00, 0x00]⟩,
    ⟨0x7c, false, [0x44, 0x00, 0x00, 0x00, 0x00, 0x00, 0x00, 0x00, 0x00]⟩], rfl⟩, rfl⟩]
  ordered := by decide

/-- By chance it is exact all the same. -/
theorem repeating_exact : Exact repeating ∧ ¬ ∀ s ∈ repeating.sections, s.content.Plain := by
  refine ⟨⟨fun turns enough => ?_, fun s member v imports => ?_⟩, fun plain => ?_⟩
  · obtain ⟨turns, rfl⟩ : ∃ more, turns = more + 2 := ⟨turns - 2, by have two : 1 < turns := enough; omega⟩
    have parsed : (parseWasmModule repeating.bytes (turns + 2)).map (fun info =>
        (info.imports, info.functionTypeIndices, info.exports, info.globals)) =
        some ([], [], [], repeating.globals) := by rfl
    obtain ⟨info, parsed, same⟩ := Option.map_eq_some_iff.mp parsed
    obtain ⟨imports, indices, exports, globals⟩ : _ ∧ _ ∧ _ ∧ _ := by simpa only [Prod.mk.injEq] using same
    exact ⟨info, parsed, imports, indices, exports, globals⟩
  · obtain rfl := List.mem_singleton.mp member
    cases imports
  · exact absurd (List.forall_mem_singleton.mp plain _ List.mem_cons_self) (by decide)

end Octraban.WasmSections
