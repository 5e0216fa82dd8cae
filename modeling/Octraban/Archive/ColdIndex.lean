import Octraban.Core.BigInt
import Octraban.Core.OrderedMap

/-! coldStorageRouter.ts, the local archive: the index over the files of both data types, and the
file that a ledger is read from. -/
namespace Octraban.ColdStorage

open JavaScript

inductive DataType where
  | transactions
  | events
  deriving DecidableEq

def DataType.name : DataType → String
  | transactions => "transactions"
  | events => "events"

def dataTypes : List DataType := [.transactions, .events]

/-- A ledger sequence is a number without a fraction that a double holds. -/
structure Ledger where
  seq : Nat
  safe : seq < 2 ^ 53

def Ledger.text (ledger : Ledger) : String := String.ofList (decimal ledger.seq)

inductive Compression where
  | gzip
  | none
  | zstd
  deriving DecidableEq

structure Entry where
  path : String
  compression : Compression

/-- A file name of too many digits is kept under `Infinity`, which is `none`. -/
structure ArchiveIndex where
  version : Nat
  entries : OrderedMap (Option Int) Entry

/-- The disk, and what reads the bytes of a file; nothing where a call throws. -/
structure Disk (Bytes Row : Type) where
  archiveDir : String
  readdir : String → Option (List String)
  readFile : String → Option Bytes
  gunzip : Bytes → Option Bytes
  zstd : Option (Bytes → Option Bytes)
  parse : Bytes → Option (List Row)

/-- `path.join(directory, name)` for a directory without a slash at its end -/
def join (directory name : String) : String := directory ++ "/" ++ name

/-- `file.match(/^(\d+)\.(json|json\.gz|json\.zst)$/)` -/
def archiveName (file : String) : Option (List Char × Compression) :=
  let digits := file.toList.takeWhile Char.isDigit
  let ext := file.toList.dropWhile Char.isDigit
  if digits = [] then none
  else if ext = ".json".toList then some (digits, .none)
  else if ext = ".json.gz".toList then some (digits, .gzip)
  else if ext = ".json.zst".toList then some (digits, .zstd)
  else none

/-- What the index keeps of a file, and under which number. -/
def indexed (directory file : String) : Option (Option Int × Entry) :=
  (archiveName file).map fun found => (parseInt (String.ofList found.1), ⟨join directory file, found.2⟩)

variable {Bytes Row : Type} (disk : Disk Bytes Row)

def Disk.directory (dataType : DataType) : String := join disk.archiveDir dataType.name

/-- A directory that is not there counts as empty. -/
def Disk.listing (dataType : DataType) : List String := (disk.readdir (disk.directory dataType)).getD []

def addFile (directory : String) (entries : OrderedMap (Option Int) Entry) (file : String) : OrderedMap (Option Int) Entry :=
  match indexed directory file with
  | some (seq, entry) => entries.set seq entry
  | none => entries

def scanAndBuild : ArchiveIndex where
  version := 1
  entries := dataTypes.foldl (fun entries dataType =>
    (disk.listing dataType).foldl (addFile (disk.directory dataType)) entries) .empty

/-- `saved` is the index file, where there is one. -/
def load (saved : Option ArchiveIndex) : ArchiveIndex :=
  match saved with
  | some index => index
  | none => scanAndBuild disk

def ArchiveIndex.lookup (index : ArchiveIndex) (ledger : Ledger) : Option Entry :=
  index.entries.get (some (ledger.seq : Int))

def Disk.decompressZstd (raw : Bytes) : Option Bytes :=
  match disk.zstd.bind fun decompress => decompress raw with
  | some data => some data
  | none => disk.gunzip raw

def readArchiveFile (path : String) (compression : Compression) : Option (List Row) := do
  let raw ← disk.readFile path
  let data ← match compression with
    | .gzip => disk.gunzip raw
    | .zstd => disk.decompressZstd raw
    | .none => some raw
  disk.parse data

/-- How the read of a ledger ends; only found data are cached. -/
inductive Reading (Row : Type) where
  | found (data : List Row)
  | absent
  | threw

def plainPath (dataType : DataType) (ledger : Ledger) : String := join (disk.directory dataType) (ledger.text ++ ".json")

def gzPath (dataType : DataType) (ledger : Ledger) : String := join (disk.directory dataType) (ledger.text ++ ".json.gz")

/-- `fetchFromArchive` below the cache. -/
def readArchive (index : ArchiveIndex) (ledger : Ledger) (dataType : DataType) : Reading Row :=
  match index.lookup ledger with
  | none =>
    match readArchiveFile disk (plainPath disk dataType ledger) .none with
    | some data => .found data
    | none =>
      match readArchiveFile disk (gzPath disk dataType ledger) .gzip with
      | some data => .found data
      | none => .absent
  | some entry =>
    match readArchiveFile disk entry.path entry.compression with
    | some data => .found data
    | none => .threw

/-- The files of a data type for a ledger, in the order of the directory. -/
def files (dataType : DataType) (ledger : Ledger) : List Entry :=
  (((disk.listing dataType).filterMap (indexed (disk.directory dataType))).filter fun file =>
    file.1 = some (ledger.seq : Int)).map Prod.snd

/-- The content of a file of the data type for the ledger, or nothing if there is none. -/
def Asked (dataType : DataType) (ledger : Ledger) (data : List Row) : Prop :=
  (∃ entry ∈ files disk dataType ledger, readArchiveFile disk entry.path entry.compression = some data) ∨
    files disk dataType ledger = [] ∧ data = []

/-- What a read returns to its caller. -/
def Reading.returns : Reading Row → Option (List Row)
  | found data => some data
  | absent => some []
  | threw => none

/-- Plain or gzip files that can be read; what is on the disk is in its directory's listing. -/
structure Readable : Prop where
  listed : ∀ dataType name, (disk.readFile (join (disk.directory dataType) name)).isSome → name ∈ disk.listing dataType
  plain : ∀ dataType, ∀ file ∈ disk.listing dataType, ∀ seq entry,
    indexed (disk.directory dataType) file = some (seq, entry) →
      entry.compression ≠ .zstd ∧ (readArchiveFile disk entry.path entry.compression).isSome

/-- The file has what was asked for. -/
def Serves (dataType : DataType) (ledger : Ledger) (entry : Entry) : Prop :=
  ∃ data, readArchiveFile disk entry.path entry.compression = some data ∧ Asked disk dataType ledger data

/-- Of a rebuilt index: the last file of the ledger, where events come after transactions, has what was
asked for. Of a loaded one: the file of its entry has, or there is no entry, and a file is there
under its usual name unless nothing was asked for. -/
def Fits (saved : Option ArchiveIndex) (dataType : DataType) (ledger : Ledger) : Prop :=
  match saved with
  | none => ∀ entry, (files disk .transactions ledger ++ files disk .events ledger).getLast? = some entry →
      Serves disk dataType ledger entry
  | some index =>
    match index.lookup ledger with
    | some entry => Serves disk dataType ledger entry
    | none => Asked disk dataType ledger [] ∨
        ∃ entry ∈ files disk dataType ledger, entry.path = plainPath disk dataType ledger ∨ entry.path = gzPath disk dataType ledger

variable {disk}

theorem get_addFile {directory : String} {entries : OrderedMap (Option Int) Entry} (files : List String) (seq : Option Int) :
    (files.foldl (addFile directory) entries).get seq =
      ((((files.filterMap (indexed directory)).filter fun file => file.1 = seq).map Prod.snd).getLast?).or (entries.get seq) := by
  induction files generalizing entries with
  | nil => rfl
  | cons file rest ih =>
    rw [List.foldl_cons, ih, List.filterMap_cons, addFile]
    cases found : indexed directory file with
    | none => rfl
    | some made =>
      by_cases same : made.1 = seq
      · rw [List.filter_cons_of_pos (by simpa using same), List.map_cons, List.getLast?_cons, ← same, OrderedMap.get_set_self]
        cases (((rest.filterMap (indexed directory)).filter fun file => file.1 = made.1).map Prod.snd).getLast? with
        | none => rfl
        | some last => rfl
      · rw [List.filter_cons_of_neg (by simpa using same), OrderedMap.get_set_ne (Ne.symm same)]

/-- The scan keeps the last file of a ledger. -/
theorem lookup_scanAndBuild (disk : Disk Bytes Row) (ledger : Ledger) : (scanAndBuild disk).lookup ledger =
    (files disk .transactions ledger ++ files disk .events ledger).getLast? := by
  rw [ArchiveIndex.lookup, scanAndBuild, dataTypes, List.foldl_cons, List.foldl_cons, List.foldl_nil, get_addFile,
    get_addFile, List.getLast?_append, ← files, ← files]
  cases (files disk .events ledger).getLast? with
  | some last => rfl
  | none => exact Option.or_none

variable {dataType : DataType} {ledger : Ledger} {entry : Entry} {data : List Row}

theorem mem_files : entry ∈ files disk dataType ledger ↔ ∃ file ∈ disk.listing dataType,
    indexed (disk.directory dataType) file = some (some (ledger.seq : Int), entry) := by
  simp only [files, List.mem_map, List.mem_filter, List.mem_filterMap, decide_eq_true_eq, Prod.exists]
  constructor
  · rintro ⟨seq, entry, ⟨⟨file, listed, found⟩, rfl⟩, rfl⟩
    exact ⟨file, listed, found⟩
  · rintro ⟨file, listed, found⟩
    exact ⟨_, entry, ⟨⟨file, listed, found⟩, rfl⟩, rfl⟩

theorem archiveName_text (ledger : Ledger) (ext : String) (dot : ∃ rest, ext.toList = '.' :: rest) :
    (ledger.text ++ ext).toList.takeWhile Char.isDigit = decimal ledger.seq ∧
      (ledger.text ++ ext).toList.dropWhile Char.isDigit = ext.toList := by
  obtain ⟨rest, starts⟩ := dot
  have digits : ∀ c ∈ decimal ledger.seq, c.isDigit = true := fun c => isDigit_of_mem_decimal
  rw [Ledger.text, String.toList_append, String.toList_ofList, starts]
  exact ⟨by rw [List.takeWhile_append_of_pos digits]; exact List.append_nil _, List.dropWhile_append_of_pos digits⟩

theorem parseInt_text (ledger : Ledger) : parseInt (String.ofList (decimal ledger.seq)) = some (ledger.seq : Int) := by
  have digits : (decimal ledger.seq).all Char.isDigit = true :=
    List.all_eq_true.mpr fun c => isDigit_of_mem_decimal
  rw [parseInt_digits (decimal_ne_nil _) digits (by rw [value_decimal]; exact ledger.safe), value_decimal]

/-- The file of a ledger under its plain name. -/
theorem indexed_plain (directory : String) (ledger : Ledger) : indexed directory (ledger.text ++ ".json") =
    some (some (ledger.seq : Int), ⟨join directory (ledger.text ++ ".json"), .none⟩) := by
  obtain ⟨digits, ext⟩ := archiveName_text ledger ".json" ⟨"json".toList, rfl⟩
  rw [indexed, archiveName, digits, ext]
  simp only [decimal_ne_nil, if_false, if_true, Option.map_some, parseInt_text]

theorem indexed_gz (directory : String) (ledger : Ledger) : indexed directory (ledger.text ++ ".json.gz") =
    some (some (ledger.seq : Int), ⟨join directory (ledger.text ++ ".json.gz"), .gzip⟩) := by
  obtain ⟨digits, ext⟩ := archiveName_text ledger ".json.gz" ⟨"json.gz".toList, rfl⟩
  have other : ".json.gz".toList ≠ ".json".toList := by decide
  rw [indexed, archiveName, digits, ext]
  simp only [decimal_ne_nil, other, if_false, if_true, Option.map_some, parseInt_text]

theorem isSome_readFile {path : String} {compression : Compression}
    (read : readArchiveFile disk path compression = some data) : (disk.readFile path).isSome := by
  rw [readArchiveFile, Option.bind_eq_bind, Option.bind_eq_some_iff] at read
  obtain ⟨raw, found, -⟩ := read
  rw [found]
  rfl

theorem join_inj {directory name other : String} (same : join directory name = join directory other) : name = other := by
  have chars := congrArg String.toList same
  simp only [join, String.toList_append] at chars
  exact String.toList_inj.mp (List.append_cancel_left chars)

theorem plain_mem_files (readable : Readable disk)
    (read : readArchiveFile disk (plainPath disk dataType ledger) .none = some data) :
    ⟨plainPath disk dataType ledger, .none⟩ ∈ files disk dataType ledger :=
  mem_files.mpr ⟨_, readable.listed dataType _ (isSome_readFile read), indexed_plain _ ledger⟩

theorem gz_mem_files (readable : Readable disk)
    (read : readArchiveFile disk (gzPath disk dataType ledger) .gzip = some data) :
    ⟨gzPath disk dataType ledger, .gzip⟩ ∈ files disk dataType ledger :=
  mem_files.mpr ⟨_, readable.listed dataType _ (isSome_readFile read), indexed_gz _ ledger⟩

/-- A file under its usual name can be read under it. -/
theorem usual_readable (readable : Readable disk) (member : entry ∈ files disk dataType ledger)
    (usual : entry.path = plainPath disk dataType ledger ∨ entry.path = gzPath disk dataType ledger) :
    (readArchiveFile disk (plainPath disk dataType ledger) .none).isSome ∨
      (readArchiveFile disk (gzPath disk dataType ledger) .gzip).isSome := by
  obtain ⟨file, listed, found⟩ := mem_files.mp member
  have path : entry.path = join (disk.directory dataType) file := by
    obtain ⟨_, _, made⟩ := Option.map_eq_some_iff.mp found
    exact congrArg Entry.path (Prod.mk.inj made).2.symm
  rcases usual with usual | usual
  · obtain rfl := join_inj (path.symm.trans usual)
    exact .inl (readable.plain _ _ listed _ _ (indexed_plain _ ledger)).2
  · obtain rfl := join_inj (path.symm.trans usual)
    exact .inr (readable.plain _ _ listed _ _ (indexed_gz _ ledger)).2

/-- A ledger without an entry in the index is read from a file of its own, if there is one. -/
theorem readArchive_unindexed (readable : Readable disk) {index : ArchiveIndex} (unindexed : index.lookup ledger = none) :
    (∃ data, (readArchive disk index ledger dataType).returns = some data ∧ Asked disk dataType ledger data) ↔
      Asked disk dataType ledger [] ∨ ∃ entry ∈ files disk dataType ledger,
        entry.path = plainPath disk dataType ledger ∨ entry.path = gzPath disk dataType ledger := by
  rw [readArchive, unindexed]
  dsimp only
  cases plain : readArchiveFile disk (plainPath disk dataType ledger) .none with
  | some data =>
    have member := plain_mem_files readable plain
    exact iff_of_true ⟨data, rfl, .inl ⟨_, member, plain⟩⟩ (.inr ⟨_, member, .inl rfl⟩)
  | none =>
    cases gz : readArchiveFile disk (gzPath disk dataType ledger) .gzip with
    | some data =>
      have member := gz_mem_files readable gz
      exact iff_of_true ⟨data, rfl, .inl ⟨_, member, gz⟩⟩ (.inr ⟨_, member, .inr rfl⟩)
    | none =>
      constructor
      · rintro ⟨data, returns, asked⟩
        cases returns
        exact .inl asked
      · rintro (asked | ⟨entry, member, usual⟩)
        · exact ⟨[], rfl, asked⟩
        · rcases usual_readable readable member usual with found | found
          · rw [plain] at found
            cases found
          · rw [gz] at found
            cases found

theorem readArchive_indexed {index : ArchiveIndex} (entered : index.lookup ledger = some entry) :
    (∃ data, (readArchive disk index ledger dataType).returns = some data ∧ Asked disk dataType ledger data) ↔
      Serves disk dataType ledger entry := by
  rw [readArchive, entered]
  dsimp only
  rw [Serves]
  cases readArchiveFile disk entry.path entry.compression with
  | some data => rfl
  | none =>
    refine iff_of_false ?_ ?_
    · rintro ⟨data, returns, -⟩
      cases returns
    · rintro ⟨data, found, -⟩
      cases found

/-- A read from the disk returns what was asked for exactly when the index fits. -/
theorem readArchive_iff (readable : Readable disk) (saved : Option ArchiveIndex) :
    (∃ data, (readArchive disk (load disk saved) ledger dataType).returns = some data ∧ Asked disk dataType ledger data) ↔
      Fits disk saved dataType ledger := by
  cases saved with
  | some index =>
    rw [load, Fits]
    cases entered : index.lookup ledger with
    | some entry => exact readArchive_indexed entered
    | none => exact readArchive_unindexed readable entered
  | none =>
    rw [load, Fits]
    have scanned := lookup_scanAndBuild disk ledger
    cases last : (files disk .transactions ledger ++ files disk .events ledger).getLast? with
    | some entry =>
      rw [last] at scanned
      rw [readArchive_indexed scanned]
      constructor
      · rintro serves _ ⟨⟩
        exact serves
      · exact fun serves => serves entry rfl
    | none =>
      rw [last] at scanned
      have none_left : files disk dataType ledger = [] := by
        obtain ⟨left, right⟩ := List.append_eq_nil_iff.mp (List.getLast?_eq_none_iff.mp last)
        cases dataType with
        | transactions => exact left
        | events => exact right
      rw [readArchive_unindexed readable scanned]
      exact iff_of_true (.inl (.inr ⟨none_left, rfl⟩)) fun _ impossible => by cases impossible

end Octraban.ColdStorage
