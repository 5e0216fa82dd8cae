import Octraban.Archive.ColdIndex
import Octraban.Core.Interleaving
import Octraban.Core.Partial

/-! coldStorageRouter.ts, reads of the three tiers through the cache and the circuit breakers. Every
tier of a request goes on by itself; a read that has timed out may still end later. -/
namespace Octraban.ColdStorage

open Interleaving

inductive Tier where
  | parquet
  | glacier
  | archive
  | other (name : String)

def Tier.name : Tier → String
  | parquet => "parquet"
  | glacier => "glacier"
  | archive => "archive"
  | other name => name

structure Settings where
  cacheTtl : Int
  cacheMaxSize : Nat
  threshold : Nat
  cooldown : Int
  timeoutMs : Nat

structure AppError where
  statusCode : Nat
  message : String

/-- How a tier fails. -/
inductive Failure where
  | circuitOpen
  | timedOut
  | threw (message : String)
  | app (error : AppError)

/-- What `fetchWithCircuitBreaker` throws. -/
def Failure.error (settings : Settings) (tier : Tier) : Failure → AppError
  | circuitOpen => ⟨503, s!"Cold storage {tier.name} is unavailable (circuit breaker open)"⟩
  | timedOut => ⟨503, s!"Cold storage {tier.name} read timed out after {settings.timeoutMs}ms"⟩
  | threw message => ⟨503, s!"Cold storage {tier.name} read failed: {message}"⟩
  | app error => error

inductive CircuitState where
  | closed
  | opened
  | halfOpen

structure BreakerState where
  state : CircuitState
  failures : Nat
  lastFailure : Int

def BreakerState.fresh : BreakerState := ⟨.closed, 0, 0⟩

def recordSuccess (b : BreakerState) : BreakerState := { b with failures := 0, state := .closed }

def recordFailure (settings : Settings) (now : Int) (b : BreakerState) : BreakerState :=
  let failed := { b with failures := b.failures + 1, lastFailure := now }
  if failed.failures ≥ settings.threshold then { failed with state := .opened } else failed

def isCircuitOpen (settings : Settings) (now : Int) (b : BreakerState) : Bool × BreakerState :=
  match b.state with
  | .closed => (false, b)
  | .opened => if now - b.lastFailure > settings.cooldown then (false, { b with state := .halfOpen }) else (true, b)
  | .halfOpen => (true, b)

variable {Bytes Row : Type}

structure CacheEntry (Row : Type) where
  data : List Row
  expiresAt : Int

abbrev L2Cache (Row : Type) := OrderedMap String (CacheEntry Row)

def L2Cache.lookup (now : Int) (key : String) (store : L2Cache Row) : Option (List Row) × L2Cache Row :=
  match store.get key with
  | none => (none, store)
  | some entry => if now > entry.expiresAt then (none, store.erase key) else (some entry.data, store)

/-- A full cache loses its oldest key, whatever key is set. -/
def L2Cache.add (settings : Settings) (now : Int) (key : String) (data : List Row) (store : L2Cache Row) : L2Cache Row :=
  let kept := if store.entries.length ≥ settings.cacheMaxSize then
      match store.keys with
      | oldest :: _ => store.erase oldest
      | [] => store
    else store
  kept.set key ⟨data, now + settings.cacheTtl⟩

def cacheKey (tier : Tier) (dataType : DataType) (ledger : Ledger) : String :=
  tier.name ++ ":" ++ dataType.name ++ ":" ++ ledger.text

abbrev Outcome (Row : Type) := Except Failure (List Row)

structure Request where
  storageType : String
  ledger : Ledger
  dataType : DataType

def tiers (storageType : String) : List Tier :=
  if storageType = "all" then [.parquet, .glacier, .archive]
  else if storageType = "parquet" then [.parquet]
  else if storageType = "glacier" then [.glacier]
  else if storageType = "archive" then [.archive]
  else [.other storageType]

/-- `answer` is what the promise of `fetchFromColdStorage` comes to. -/
structure Response (Row : Type) where
  request : Request
  outcomes : List (Outcome Row)
  answer : Except AppError (List Row)

structure World (Row : Type) where
  now : Int
  store : L2Cache Row
  breakers : String → BreakerState
  responses : List (Response Row)

/-- A tier of a request: whether its read goes on, and how its race has ended. -/
structure Fetch (Row : Type) where
  tier : Tier
  reading : Bool
  outcome : Option (Outcome Row)

structure Task (Row : Type) where
  request : Request
  fetches : List (Fetch Row)
  answered : Bool

/-- What the environment decides: how the read of a tier ends, where it is not the archive's, or that
its time is up. -/
inductive Answer (Row : Type) where
  | read (i : Nat) (result : Except Failure (List Row))
  | timeout (i : Nat)

variable (settings : Settings) (disk : Disk Bytes Row) (index : ArchiveIndex)

def World.breaker (w : World Row) (tier : Tier) (change : BreakerState → BreakerState) : World Row :=
  { w with breakers := Function.update w.breakers tier.name (change (w.breakers tier.name)) }

/-- The part of a tier's fetch before its read. -/
def fromCache (request : Request) (w : World Row) (tier : Tier) : World Row × Fetch Row :=
  let found := L2Cache.lookup w.now (cacheKey tier request.dataType request.ledger) w.store
  match found.1 with
  | some data => ({ w with store := found.2 }.breaker tier recordSuccess, ⟨tier, false, some (.ok data)⟩)
  | none => ({ w with store := found.2 }, ⟨tier, true, none⟩)

/-- `fetchWithCircuitBreaker` up to its first await. What is cached ends the race at once. -/
def beginFetch (request : Request) (w : World Row) (tier : Tier) : World Row × Fetch Row :=
  let checked := isCircuitOpen settings w.now (w.breakers tier.name)
  let w := w.breaker tier fun _ => checked.2
  if checked.1 then (w, ⟨tier, false, some (.error .circuitOpen)⟩)
  else
    match tier with
    | .other _ => (w.breaker tier recordSuccess, ⟨tier, false, some (.ok [])⟩)
    | .parquet | .glacier | .archive => fromCache request w tier

def beginFetches (request : Request) (w : World Row) : List Tier → World Row × List (Fetch Row)
  | [] => (w, [])
  | tier :: rest =>
    let first := beginFetch settings request w tier
    let later := beginFetches request first.1 rest
    (later.1, first.2 :: later.2)

/-- How a read ends, and what it leaves in the cache. -/
def readTier (request : Request) (tier : Tier) (result : Except Failure (List Row)) : Outcome Row × Option (List Row) :=
  match tier with
  | .archive =>
    match readArchive disk index request.ledger request.dataType with
    | .found data => (.ok data, some data)
    | .absent => (.ok [], none)
    | .threw => (.error (.threw "unreadable file"), none)
  | .other _ => (.ok [], none)
  | .parquet | .glacier =>
    match result with
    | .ok data => (.ok data, some data)
    | .error failure => (.error failure, none)

/-- The end of a race. Errors of another status leave the breaker alone. -/
def World.settle (w : World Row) (tier : Tier) : Outcome Row → World Row
  | .ok _ => w.breaker tier recordSuccess
  | .error (.app error) => if error.statusCode = 503 then w.breaker tier (recordFailure settings w.now) else w
  | .error _ => w.breaker tier (recordFailure settings w.now)

/-- The first tier with data among the ones that answered. -/
def firstData : List (Outcome Row) → List Row
  | [] => []
  | .ok data :: rest => if data = [] then firstData rest else data
  | .error _ :: rest => firstData rest

/-- One tier answers for itself; of several, those that failed are passed over. -/
def answerOf (request : Request) (outcomes : List (Outcome Row)) : Except AppError (List Row) :=
  match tiers request.storageType, outcomes with
  | [_], [.ok data] => .ok data
  | [tier], [.error failure] => .error (failure.error settings tier)
  | _, _ => .ok (firstData outcomes)

/-- The answer is there when all races have ended; the task goes on as long as one of its reads. -/
def conclude (w : World Row) (task : Task Row) : World Row × Option (Task Row) :=
  let rest (answered : Bool) := if task.fetches.any Fetch.reading then some { task with answered } else none
  match task.answered, task.fetches.mapM Fetch.outcome with
  | false, some outcomes =>
    ({ w with responses := w.responses ++ [⟨task.request, outcomes, answerOf settings task.request outcomes⟩] }, rest true)
  | answered, _ => (w, rest answered)

def start (w : World Row) (request : Request) : Option (World Row × Option (Task Row)) :=
  let begun := beginFetches settings request w (tiers request.storageType)
  some (conclude settings begun.1 ⟨request, begun.2, false⟩)

/-- `l2Cache.set`, where a tier does that. -/
def World.write (w : World Row) (request : Request) (tier : Tier) : Option (List Row) → World Row
  | some data => { w with store := L2Cache.add settings w.now (cacheKey tier request.dataType request.ledger) data w.store }
  | none => w

/-- The read of a tier ends, before its time is up or after it. -/
def endRead (w : World Row) (request : Request) (fetch : Fetch Row) (result : Except Failure (List Row)) :
    World Row × Fetch Row :=
  let ended := readTier disk index request fetch.tier result
  let w := w.write settings request fetch.tier ended.2
  match fetch.outcome with
  | none => (w.settle settings fetch.tier ended.1, { fetch with reading := false, outcome := some ended.1 })
  | some _ => (w, { fetch with reading := false })

def resume (w : World Row) (task : Task Row) : Answer Row → Option (World Row × Option (Task Row))
  | .read i result =>
    match task.fetches[i]? with
    | none => none
    | some fetch =>
      if fetch.reading then
        let ended := endRead settings disk index w task.request fetch result
        some (conclude settings ended.1 { task with fetches := task.fetches.set i ended.2 })
      else none
  | .timeout i =>
    match task.fetches[i]? with
    | none => none
    | some fetch =>
      if fetch.reading ∧ fetch.outcome.isNone then
        let late : Outcome Row := .error .timedOut
        some (conclude settings (w.settle settings fetch.tier late)
          { task with fetches := task.fetches.set i { fetch with outcome := some late } })
      else none

def program : Program (World Row) (Task Row) Request (Answer Row) Int where
  start := start settings
  resume := resume settings disk index
  environment w now := some { w with now }

def World.Initial (w : World Row) : Prop :=
  w.store = .empty ∧ (w.breakers = fun _ => .fresh) ∧ w.responses = []

def system : Transition.System (Config (World Row) (Task Row)) (Act Request (Answer Row) Int) :=
  (program settings disk index).system World.Initial

/-- The answer has what was asked for; only a breaker and the clock may come in between. -/
def Returned (response : Response Row) : Prop :=
  (∃ data, response.answer = .ok data ∧ Asked disk response.request.dataType response.request.ledger data) ∨
    response.outcomes = [.error .circuitOpen] ∨ response.outcomes = [.error .timedOut]

def Outcome.failed : Outcome Row → Prop
  | .ok _ => False
  | .error _ => True

/-- Nothing is returned only if every tier answered that it has nothing, and it is an error if all failed. -/
def Honest (response : Response Row) : Prop :=
  (response.answer = .ok [] → ∀ outcome ∈ response.outcomes, outcome = .ok []) ∧
    ((∀ outcome ∈ response.outcomes, Outcome.failed outcome) → ∃ error, response.answer = .error error ∧ error.statusCode = 503)

/-- An archive outcome is what a read from the disk comes to, unless a breaker or the clock ended it. -/
def Genuine (request : Request) (tier : Tier) (outcome : Outcome Row) : Prop :=
  tier = .archive → match outcome with
    | .ok data => (readArchive disk index request.ledger request.dataType).returns = some data
    | .error failure => failure = .circuitOpen ∨ failure = .timedOut ∨
        (readArchive disk index request.ledger request.dataType).returns = none

/-- What is cached under a key of the archive has been read from the disk. -/
def Cached (store : L2Cache Row) : Prop :=
  ∀ dataType ledger entry, store.get (cacheKey .archive dataType ledger) = some entry →
    readArchive disk index ledger dataType = .found entry.data

def Fetch.Sound (request : Request) (fetch : Fetch Row) : Prop :=
  ∀ outcome, fetch.outcome = some outcome → Genuine disk index request fetch.tier outcome

structure World.Sound (w : World Row) : Prop where
  cached : Cached disk index w.store
  responses : ∀ response ∈ w.responses, response.answer = answerOf settings response.request response.outcomes ∧
    List.Forall₂ (Genuine disk index response.request) (tiers response.request.storageType) response.outcomes

structure Task.Sound (task : Task Row) : Prop where
  tiers : task.fetches.map Fetch.tier = tiers task.request.storageType
  fetches : ∀ fetch ∈ task.fetches, fetch.Sound disk index task.request

variable {settings} {disk} {index} {w : World Row} {request : Request} {tier : Tier} {store : L2Cache Row}

theorem DataType.name_inj {a b : DataType} (same : a.name = b.name) : a = b := by
  cases a <;> cases b <;> first | rfl | exact absurd same (by decide)

theorem Ledger.text_inj {a b : Ledger} (same : a.text = b.text) : a = b := by
  have digits := String.ofList_inj.mp same
  have numbers := congrArg JavaScript.value digits
  rw [JavaScript.value_decimal, JavaScript.value_decimal] at numbers
  cases a
  cases b
  cases numbers
  rfl

/-- The part before the first separator and the part after it. -/
theorem parts_of_separated {a b c d : List Char} (left : ':' ∉ a) (right : ':' ∉ b)
    (same : a ++ ':' :: c = b ++ ':' :: d) : a = b ∧ c = d := by
  induction a generalizing b with
  | nil =>
    cases b with
    | nil => exact ⟨rfl, (List.cons.inj same).2⟩
    | cons first rest =>
      obtain ⟨colon, -⟩ := List.cons.inj same
      exact absurd (colon ▸ List.mem_cons_self) right
  | cons first rest ih =>
    cases b with
    | nil =>
      obtain ⟨colon, -⟩ := List.cons.inj same
      exact absurd (colon ▸ List.mem_cons_self) left
    | cons first' rest' =>
      obtain ⟨rfl, others⟩ := List.cons.inj same
      obtain ⟨rfl, ends⟩ := ih (fun member => left (List.mem_cons_of_mem _ member))
        (fun member => right (List.mem_cons_of_mem _ member)) others
      exact ⟨rfl, ends⟩

theorem colon_notMem_name (dataType : DataType) : ':' ∉ dataType.name.toList := by
  cases dataType with
  | transactions => decide
  | events => decide

/-- No other tier has a key of the archive's, and no two requests share one. -/
theorem cacheKey_archive {dataType other : DataType} {ledger ledger' : Ledger} (known : ∀ name, tier ≠ .other name)
    (same : cacheKey tier dataType ledger = cacheKey .archive other ledger') :
    tier = .archive ∧ dataType = other ∧ ledger = ledger' := by
  have chars := congrArg String.toList same
  simp only [cacheKey, String.toList_append, List.append_assoc] at chars
  have archive : tier.name.toList = Tier.archive.name.toList ∧ _ :=
    parts_of_separated (by cases tier <;> first | decide | exact absurd rfl (known _)) (by decide) chars
  obtain ⟨type, digits⟩ := parts_of_separated (colon_notMem_name dataType) (colon_notMem_name other) archive.2
  refine ⟨?_, DataType.name_inj (String.toList_inj.mp type), Ledger.text_inj (String.toList_inj.mp digits)⟩
  cases tier with
  | other name => exact (known name rfl).elim
  | parquet => exact absurd archive.1 (by decide)
  | glacier => exact absurd archive.1 (by decide)
  | archive => rfl

theorem Cached.lookup (cached : Cached disk index store) (now : Int) (key : String) :
    Cached disk index (L2Cache.lookup now key store).2 := by
  intro dataType ledger entry found
  rw [L2Cache.lookup] at found
  split at found
  · exact cached dataType ledger entry found
  · split at found
    · rw [OrderedMap.get_erase] at found
      split at found
      · cases found
      · exact cached dataType ledger entry found
    · exact cached dataType ledger entry found

theorem lookup_eq_some {now : Int} {key : String} {data : List Row} (found : (L2Cache.lookup now key store).1 = some data) :
    ∃ entry, store.get key = some entry ∧ entry.data = data := by
  rw [L2Cache.lookup] at found
  split at found
  · cases found
  · rename_i entry held
    split at found
    · cases found
    · exact ⟨entry, held, Option.some.inj found⟩

/-- What is set for the archive must have been read from the disk. -/
theorem Cached.add (cached : Cached disk index store) (settings : Settings) (now : Int) {key : String} {data : List Row}
    (genuine : ∀ dataType ledger, key = cacheKey .archive dataType ledger → readArchive disk index ledger dataType = .found data) :
    Cached disk index (L2Cache.add settings now key data store) := by
  intro dataType ledger entry found
  rw [L2Cache.add] at found
  by_cases same : cacheKey .archive dataType ledger = key
  · rw [same, OrderedMap.get_set_self] at found
    rw [← Option.some.inj found]
    exact genuine dataType ledger same.symm
  · rw [OrderedMap.get_set_ne same] at found
    split at found
    · split at found
      · rw [OrderedMap.get_erase] at found
        split at found
        · cases found
        · exact cached dataType ledger entry found
      · exact cached dataType ledger entry found
    · exact cached dataType ledger entry found

theorem settle_kept (w : World Row) (tier : Tier) (outcome : Outcome Row) :
    (w.settle settings tier outcome).store = w.store ∧ (w.settle settings tier outcome).responses = w.responses := by
  rw [World.settle.eq_def]
  split
  · exact ⟨rfl, rfl⟩
  · split
    · exact ⟨rfl, rfl⟩
    · exact ⟨rfl, rfl⟩
  · exact ⟨rfl, rfl⟩

theorem fromCache_sound (sound : w.Sound settings disk index) (request : Request) (tier : Tier) :
    (fromCache request w tier).1.Sound settings disk index ∧ (fromCache request w tier).2.tier = tier ∧
      (fromCache request w tier).2.Sound disk index request := by
  have looked := sound.cached.lookup w.now (cacheKey tier request.dataType request.ledger)
  rw [fromCache]
  split
  · rename_i data hit
    refine ⟨⟨looked, sound.responses⟩, rfl, ?_⟩
    rintro outcome ⟨⟩ archive
    obtain ⟨entry, held, rfl⟩ := lookup_eq_some hit
    rw [show tier = .archive from archive] at held
    exact congrArg Reading.returns (sound.cached _ _ entry held)
  · refine ⟨⟨looked, sound.responses⟩, rfl, ?_⟩
    rintro outcome ⟨⟩

/-- What a tier's first segment does: its race is over by the breaker or by the cache, or it reads. -/
theorem beginFetch_sound (sound : w.Sound settings disk index) (request : Request) (tier : Tier) :
    (beginFetch settings request w tier).1.Sound settings disk index ∧
      (beginFetch settings request w tier).2.tier = tier ∧ (beginFetch settings request w tier).2.Sound disk index request := by
  have checked (change : BreakerState → BreakerState) : (w.breaker tier change).Sound settings disk index :=
    ⟨sound.cached, sound.responses⟩
  rw [beginFetch.eq_def]
  dsimp only
  split
  · refine ⟨⟨sound.cached, sound.responses⟩, rfl, ?_⟩
    rintro outcome ⟨⟩ -
    exact .inl rfl
  · cases tier with
    | other name =>
      refine ⟨⟨sound.cached, sound.responses⟩, rfl, ?_⟩
      rintro outcome - impossible
      cases impossible
    | parquet => exact fromCache_sound (checked _) request .parquet
    | glacier => exact fromCache_sound (checked _) request .glacier
    | archive => exact fromCache_sound (checked _) request .archive

theorem beginFetches_sound (sound : w.Sound settings disk index) (request : Request) (tiers : List Tier) :
    (beginFetches settings request w tiers).1.Sound settings disk index ∧
      (beginFetches settings request w tiers).2.map Fetch.tier = tiers ∧
        ∀ fetch ∈ (beginFetches settings request w tiers).2, fetch.Sound disk index request := by
  induction tiers generalizing w with
  | nil => exact ⟨sound, rfl, fun _ => nofun⟩
  | cons tier rest ih =>
    obtain ⟨begun, same, first⟩ := beginFetch_sound sound request tier
    obtain ⟨after, others, each⟩ := ih begun
    rw [beginFetches]
    exact ⟨after, by rw [List.map_cons, same, others], List.forall_mem_cons.mpr ⟨first, each⟩⟩

/-- The end of a read is what the disk has, and only that is cached for the archive. -/
theorem readTier_genuine (request : Request) (tier : Tier) (result : Except Failure (List Row)) :
    Genuine disk index request tier (readTier disk index request tier result).1 ∧
      ∀ data, (readTier disk index request tier result).2 = some data → (∀ name, tier ≠ .other name) ∧
        (tier = .archive → readArchive disk index request.ledger request.dataType = .found data) := by
  cases tier with
  | archive =>
    rw [readTier.eq_def]
    cases ends : readArchive disk index request.ledger request.dataType with
    | found data =>
      refine ⟨fun _ => congrArg Reading.returns ends, ?_⟩
      rintro data ⟨⟩
      exact ⟨fun _ => nofun, fun _ => rfl⟩
    | absent =>
      refine ⟨fun _ => congrArg Reading.returns ends, ?_⟩
      rintro data ⟨⟩
    | threw =>
      refine ⟨fun _ => .inr (.inr (congrArg Reading.returns ends)), ?_⟩
      rintro data ⟨⟩
  | other name =>
    constructor
    · rintro ⟨⟩
    · rintro data ⟨⟩
  | parquet =>
    constructor
    · rintro ⟨⟩
    · exact fun data _ => ⟨fun _ => nofun, nofun⟩
  | glacier =>
    constructor
    · rintro ⟨⟩
    · exact fun data _ => ⟨fun _ => nofun, nofun⟩

theorem endRead_sound (sound : w.Sound settings disk index) {fetch : Fetch Row} (own : fetch.Sound disk index request)
    (result : Except Failure (List Row)) : (endRead settings disk index w request fetch result).1.Sound settings disk index ∧
      (endRead settings disk index w request fetch result).2.tier = fetch.tier ∧
        (endRead settings disk index w request fetch result).2.Sound disk index request := by
  obtain ⟨genuine, cachedData⟩ := @readTier_genuine _ _ disk index request fetch.tier result
  have written : (w.write settings request fetch.tier (readTier disk index request fetch.tier result).2).Sound
      settings disk index := by
    rw [World.write.eq_def]
    split
    · rename_i data caches
      obtain ⟨known, read⟩ := cachedData data caches
      refine ⟨sound.cached.add settings w.now fun dataType ledger same => ?_, sound.responses⟩
      obtain ⟨archive, rfl, rfl⟩ := cacheKey_archive known same
      exact read archive
    · exact sound
  rw [endRead]
  split
  · obtain ⟨store, responses⟩ := @settle_kept _ settings
      (w.write settings request fetch.tier (readTier disk index request fetch.tier result).2) fetch.tier
      (readTier disk index request fetch.tier result).1
    refine ⟨⟨store ▸ written.cached, responses ▸ written.responses⟩, rfl, ?_⟩
    rintro outcome ⟨⟩
    exact genuine
  · exact ⟨written, rfl, own⟩

theorem genuine_of_fetches {fetches : List (Fetch Row)} {outcomes : List (Outcome Row)}
    (each : ∀ fetch ∈ fetches, fetch.Sound disk index request) (all : fetches.mapM Fetch.outcome = some outcomes) :
    List.Forall₂ (fun fetch outcome => Genuine disk index request fetch.tier outcome) fetches outcomes := by
  have ended := Partial.mapM_eq_some_iff.mp all
  clear all
  induction ended with
  | nil => exact .nil
  | cons first _ ih =>
    rw [List.forall_mem_cons] at each
    exact .cons (each.1 _ first) (ih each.2)

/-- The outcomes of a task's tiers, once all are there. -/
theorem outcomes_genuine {task : Task Row} (sound : task.Sound disk index) {outcomes : List (Outcome Row)}
    (all : task.fetches.mapM Fetch.outcome = some outcomes) :
    List.Forall₂ (Genuine disk index task.request) (tiers task.request.storageType) outcomes := by
  rw [← sound.tiers, List.forall₂_map_left_iff]
  exact genuine_of_fetches sound.fetches all

theorem conclude_sound (sound : w.Sound settings disk index) {task : Task Row} (own : task.Sound disk index) :
    (conclude settings w task).1.Sound settings disk index ∧
      ∀ later, (conclude settings w task).2 = some later → later.Sound disk index := by
  have rest (answered : Bool) (later : Task Row)
      (same : (if task.fetches.any Fetch.reading then some { task with answered } else none) = some later) :
      later.Sound disk index := by
    split at same
    · cases same
      exact ⟨own.tiers, own.fetches⟩
    · cases same
  rw [conclude]
  dsimp only
  split
  · rename_i outcomes _ all
    refine ⟨⟨sound.cached, fun response member => ?_⟩, rest true⟩
    rcases List.mem_append.mp member with old | new
    · exact sound.responses response old
    · rw [List.mem_singleton.mp new]
      exact ⟨rfl, outcomes_genuine own all⟩
  · exact ⟨sound, rest _⟩

/-- A fetch is replaced by one of the same tier. -/
theorem Task.Sound.set {task : Task Row} (sound : task.Sound disk index) {i : Nat} {fetch : Fetch Row}
    (found : task.fetches[i]? = some fetch) (later : Fetch Row) (tier : later.tier = fetch.tier) (own : later.Sound disk index task.request) :
    Task.Sound disk index { task with fetches := task.fetches.set i later } := by
  constructor
  · obtain ⟨inside, same⟩ := List.getElem?_eq_some_iff.mp found
    have kept : (task.fetches.map Fetch.tier).set i fetch.tier = task.fetches.map Fetch.tier := by
      rw [← same, ← List.map_set, List.set_getElem_self]
    rw [← sound.tiers, List.map_set, tier, kept]
  · intro other member
    rcases List.mem_or_eq_of_mem_set member with old | rfl
    · exact sound.fetches other old
    · exact own

theorem resume_sound (sound : w.Sound settings disk index) {task : Task Row} (own : task.Sound disk index)
    {answer : Answer Row} {w' : World Row} {next : Option (Task Row)}
    (resumed : resume settings disk index w task answer = some (w', next)) :
    w'.Sound settings disk index ∧ ∀ later, next = some later → later.Sound disk index := by
  cases answer with
  | read i result =>
    rw [resume] at resumed
    split at resumed
    · cases resumed
    · rename_i fetch found
      split at resumed
      · obtain ⟨after, tier, ended⟩ := endRead_sound sound (own.fetches fetch (List.mem_of_getElem? found)) result
        have concluded := conclude_sound after (own.set found _ tier ended)
        rw [Option.some.inj resumed] at concluded
        exact concluded
      · cases resumed
  | timeout i =>
    rw [resume] at resumed
    split at resumed
    · cases resumed
    · rename_i fetch found
      split at resumed
      · obtain ⟨store, responses⟩ := @settle_kept _ settings w fetch.tier (.error .timedOut)
        have late : Fetch.Sound disk index task.request { fetch with outcome := some (.error .timedOut) } := by
          rintro outcome ⟨⟩ -
          exact .inr (.inl rfl)
        have after : (w.settle settings fetch.tier (.error .timedOut)).Sound settings disk index :=
          ⟨store ▸ sound.cached, responses ▸ sound.responses⟩
        have concluded := conclude_sound after (own.set found { fetch with outcome := some (.error .timedOut) } rfl late)
        rw [Option.some.inj resumed] at concluded
        exact concluded
      · cases resumed

/-- In every state, what is cached and what was answered are what the disk has. -/
theorem reachable_sound {c : Config (World Row) (Task Row)} (reached : (system settings disk index).Reachable c) :
    c.Holds (fun w => w.Sound settings disk index) fun _ task => task.Sound disk index := by
  refine reached.invariant ?_ ?_
  · rintro c ⟨⟨store, -, responses⟩, idle⟩
    refine Config.holds_idle ⟨?_, ?_⟩ idle
    · rw [store]
      rintro dataType ledger entry ⟨⟩
    · rw [responses]
      exact fun _ => nofun
  · intro c a c' holds _ stepped
    cases Program.step_cases stepped with
    | @start k request w next idle started =>
      obtain ⟨begun, same, each⟩ := beginFetches_sound holds.world request (tiers request.storageType)
      have own : Task.Sound disk index ⟨request, _, false⟩ := ⟨same, each⟩
      have concluded := conclude_sound begun own
      rw [Option.some.inj started] at concluded
      exact Config.holds_put concluded.1 concluded.2 fun j m _ found => holds.live found
    | resume found resumed =>
      obtain ⟨after, later⟩ := resume_sound holds.world (holds.live found) resumed
      exact Config.holds_put after later fun j m _ found => holds.live found
    | abort found => exact holds.abort
    | environment moved =>
      cases moved
      exact ⟨⟨holds.world.cached, holds.world.responses⟩, fun found => holds.live found⟩

/-- A request for the archive alone is answered by its first read. -/
theorem archive_answered (settings : Settings) (disk : Disk Bytes Row) (index : ArchiveIndex) (dataType : DataType)
    (ledger : Ledger) : ∃ c, (system settings disk index).Reachable c ∧ ∃ response ∈ c.world.responses,
      response.request = ⟨"archive", ledger, dataType⟩ ∧
        response.outcomes = [(readTier disk index ⟨"archive", ledger, dataType⟩ .archive (.ok [])).1] := by
  refine ⟨_, Transition.System.reachable_of_run (system settings disk index) ⟨⟨0, .empty, fun _ => .fresh, []⟩, fun _ => none⟩
    [.start 0 ⟨"archive", ledger, dataType⟩, .resume 0 (.read 0 (.ok []))] ⟨⟨rfl, rfl, rfl⟩, rfl⟩ rfl,
    _, List.mem_append_right _ List.mem_cons_self, rfl, rfl⟩

theorem firstData_eq_nil {outcomes : List (Outcome Row)} :
    firstData outcomes = [] ↔ ∀ data, .ok data ∈ outcomes → data = [] := by
  induction outcomes with
  | nil => exact iff_of_true rfl fun _ => nofun
  | cons outcome rest ih =>
    cases outcome with
    | error failure =>
      rw [firstData, ih]
      exact ⟨fun each data member => each data ((List.mem_cons.mp member).resolve_left nofun),
        fun each data member => each data (List.mem_cons_of_mem _ member)⟩
    | ok data =>
      rw [firstData]
      split
      · rename_i empty
        rw [ih]
        constructor
        · intro each other member
          rcases List.mem_cons.mp member with same | later
          · rw [Except.ok.inj same, empty]
          · exact each other later
        · exact fun each other member => each other (List.mem_cons_of_mem _ member)
      · rename_i some_row
        exact iff_of_false some_row fun each => some_row (each data List.mem_cons_self)

/-- A request for one tier gets what it came to. -/
theorem archive_outcome {response : Response Row} (alone : response.request.storageType = "archive")
    (genuine : List.Forall₂ (Genuine disk index response.request) (tiers response.request.storageType) response.outcomes) :
    ∃ outcome, response.outcomes = [outcome] ∧ Genuine disk index response.request .archive outcome := by
  have tier : tiers "archive" = [.archive] := rfl
  rw [alone, tier, List.forall₂_cons_left_iff] at genuine
  obtain ⟨outcome, rest, first, others, same⟩ := genuine
  rw [List.forall₂_nil_left_iff.mp others] at same
  exact ⟨outcome, same, first⟩

theorem answerOf_archive {request : Request} (alone : request.storageType = "archive") (outcome : Outcome Row) :
    answerOf settings request [outcome] = match outcome with
      | .ok data => .ok data
      | .error failure => .error (failure.error settings .archive) := by
  have tier : tiers "archive" = [.archive] := rfl
  rw [answerOf.eq_def, alone, tier]
  cases outcome with
  | ok data => rfl
  | error failure => rfl

/-- Every read of the archive returns what was asked for exactly when the index fits. -/
theorem archive_returns_iff (readable : Readable disk) (settings : Settings) (saved : Option ArchiveIndex)
    (dataType : DataType) (ledger : Ledger) :
    (∀ c, (system settings disk (load disk saved)).Reachable c → ∀ response ∈ c.world.responses,
      response.request = ⟨"archive", ledger, dataType⟩ → Returned disk response) ↔ Fits disk saved dataType ledger := by
  rw [← readArchive_iff readable saved]
  constructor
  · intro each
    obtain ⟨c, reached, response, member, request, outcomes⟩ := archive_answered settings disk (load disk saved) dataType ledger
    have returned := each c reached response member request
    have alone : response.request.storageType = "archive" := by rw [request]
    have answer := ((reachable_sound reached).world.responses response member).1
    rw [outcomes, answerOf_archive alone, readTier.eq_def] at answer
    rw [Returned, outcomes, answer, request, readTier.eq_def] at returned
    dsimp only at returned
    cases ends : readArchive disk (load disk saved) ledger dataType with
    | found data =>
      rw [ends] at returned
      rcases returned with ⟨found, same, asked⟩ | impossible | impossible
      · exact ⟨data, rfl, Except.ok.inj same ▸ asked⟩
      · cases impossible
      · cases impossible
    | absent =>
      rw [ends] at returned
      rcases returned with ⟨found, same, asked⟩ | impossible | impossible
      · exact ⟨[], rfl, Except.ok.inj same ▸ asked⟩
      · cases impossible
      · cases impossible
    | threw =>
      rw [ends] at returned
      rcases returned with ⟨found, impossible, -⟩ | impossible | impossible
      · cases impossible
      · cases impossible
      · cases impossible
  · rintro ⟨data, returns, asked⟩ c reached response member request
    have alone : response.request.storageType = "archive" := by rw [request]
    obtain ⟨answer, genuine⟩ := (reachable_sound reached).world.responses response member
    obtain ⟨outcome, outcomes, own⟩ := archive_outcome alone genuine
    have own := own rfl
    rw [Returned, answer, outcomes, answerOf_archive alone, request]
    rw [request] at own
    cases outcome with
    | ok found =>
      have same := Option.some.inj (returns.symm.trans own)
      exact .inl ⟨found, rfl, same ▸ asked⟩
    | error failure =>
      rcases own with rfl | rfl | threw
      · exact .inr (.inl rfl)
      · exact .inr (.inr rfl)
      · rw [returns] at threw
        cases threw

/-- A request for all tiers is honest exactly when none failed or one had data. -/
theorem honest_iff {response : Response Row} (all : response.request.storageType = "all")
    (answer : response.answer = answerOf settings response.request response.outcomes)
    (genuine : List.Forall₂ (Genuine disk index response.request) (tiers response.request.storageType) response.outcomes) :
    Honest response ↔ (∀ outcome ∈ response.outcomes, ¬ Outcome.failed outcome) ∨
      ∃ data, .ok data ∈ response.outcomes ∧ data ≠ [] := by
  have three : tiers "all" = [.parquet, .glacier, .archive] := rfl
  have first : response.answer = .ok (firstData response.outcomes) := by
    rw [answer, answerOf.eq_def, all, three]
  rw [all, three] at genuine
  have length := genuine.length_eq
  have someone : ∃ outcome, outcome ∈ response.outcomes := List.exists_mem_of_length_pos (by rw [← length]; decide)
  rw [Honest, first]
  constructor
  · rintro ⟨empty, failed⟩
    by_cases data : ∃ data, .ok data ∈ response.outcomes ∧ data ≠ []
    · exact .inr data
    · have nothing : firstData response.outcomes = [] :=
        firstData_eq_nil.mpr fun found member => by_contra fun some_row => data ⟨found, member, some_row⟩
      refine .inl fun outcome member fails => ?_
      rw [empty (congrArg Except.ok nothing) outcome member] at fails
      exact fails
  · intro sound
    constructor
    · intro same outcome member
      have nothing := firstData_eq_nil.mp (Except.ok.inj same)
      rcases sound with answered | ⟨data, held, some_row⟩
      · cases outcome with
        | ok data => rw [nothing data member]
        | error failure => exact absurd trivial (answered _ member)
      · exact absurd (nothing data held) some_row
    · intro failed
      rcases sound with answered | ⟨data, held, -⟩
      · obtain ⟨outcome, member⟩ := someone
        exact absurd (failed outcome member) (answered outcome member)
      · exact (failed _ held).elim

/-- The reads of the archive, and of all tiers, in every run. -/
theorem cold_reads_iff (readable : Readable disk) (settings : Settings) (saved : Option ArchiveIndex) :
    (∀ dataType ledger, (∀ c, (system settings disk (load disk saved)).Reachable c → ∀ response ∈ c.world.responses,
        response.request = ⟨"archive", ledger, dataType⟩ → Returned disk response) ↔ Fits disk saved dataType ledger) ∧
      ∀ c, (system settings disk (load disk saved)).Reachable c → ∀ response ∈ c.world.responses,
        response.request.storageType = "all" → (Honest response ↔
          (∀ outcome ∈ response.outcomes, ¬ Outcome.failed outcome) ∨ ∃ data, .ok data ∈ response.outcomes ∧ data ≠ []) := by
  refine ⟨fun dataType ledger => archive_returns_iff readable settings saved dataType ledger, ?_⟩
  intro c reached response member all
  obtain ⟨answer, genuine⟩ := (reachable_sound reached).world.responses response member
  exact honest_iff all answer genuine

def defaults : Settings := ⟨3600000, 1000, 3, 30000, 2000⟩

def seven : Ledger := ⟨7, by decide⟩

/-- A file of transactions and one of events for one ledger. -/
def twoFiles : Disk String Nat where
  archiveDir := "data/archive"
  readdir _ := some ["7.json"]
  readFile path :=
    if path = "data/archive/transactions/7.json" then some "[1]"
    else if path = "data/archive/events/7.json" then some "[2]"
    else none
  gunzip _ := none
  zstd := none
  parse text := if text = "[1]" then some [1] else if text = "[2]" then some [2] else none

theorem twoFiles_readable : Readable twoFiles := by
  constructor
  · intro dataType name there
    have start (dataType : DataType) (name : String) : (join (twoFiles.directory dataType) name).toList.take 14 =
        (twoFiles.directory dataType).toList.take 14 := by
      have long : 14 ≤ (twoFiles.directory dataType).toList.length := by cases dataType <;> decide
      rw [join, String.toList_append, String.toList_append, List.append_assoc, List.take_append_of_le_length long]
    have apart : (twoFiles.directory .transactions).toList.take 14 ≠ (twoFiles.directory .events).toList.take 14 := by decide
    have path : ∃ other, join (twoFiles.directory dataType) name = join (twoFiles.directory other) "7.json" := by
      by_contra neither
      rw [not_exists] at neither
      have missing : twoFiles.readFile (join (twoFiles.directory dataType) name) = none :=
        (if_neg (neither .transactions)).trans (if_neg (neither .events))
      rw [missing] at there
      cases there
    obtain ⟨other, same⟩ := path
    have starts := congrArg (fun text => text.toList.take 14) same
    rw [start, start] at starts
    have type : dataType = other := by
      cases dataType <;> cases other <;> first | rfl | exact absurd starts apart | exact absurd starts.symm apart
    rw [type] at same
    exact join_inj same ▸ List.mem_singleton_self _
  · intro dataType file listed seq entry found
    obtain rfl := List.mem_singleton.mp listed
    cases dataType with
    | transactions =>
      cases found
      decide
    | events =>
      cases found
      decide

theorem events_returned : Fits twoFiles none .events seven ∧ ∀ c, (system defaults twoFiles (load twoFiles none)).Reachable c →
    ∀ response ∈ c.world.responses, response.request = ⟨"archive", seven, .events⟩ → Returned twoFiles response := by
  have fits : Fits twoFiles none .events seven := by
    rintro entry ⟨⟩
    exact ⟨[2], rfl, .inl ⟨_, List.mem_singleton_self _, rfl⟩⟩
  exact ⟨fits, ((cold_reads_iff twoFiles_readable defaults none).1 .events seven).mpr fits⟩

/-- The events of a ledger come back for its transactions, and failures of all tiers as no data. -/
theorem transactions_lost :
    (∃ c, (system defaults twoFiles (load twoFiles none)).Reachable c ∧ ∃ response ∈ c.world.responses,
      response.request = ⟨"archive", seven, .transactions⟩ ∧ response.answer = .ok [2] ∧
        ¬ Asked twoFiles .transactions seven [2]) ∧
      ∃ c, (system defaults twoFiles (load twoFiles none)).Reachable c ∧ ∃ response ∈ c.world.responses,
        response.request = ⟨"all", seven, .transactions⟩ ∧ (∀ outcome ∈ response.outcomes, Outcome.failed outcome) ∧
          response.answer = .ok [] := by
  constructor
  · refine ⟨_, Transition.System.reachable_of_run _ ⟨⟨0, .empty, fun _ => .fresh, []⟩, fun _ => none⟩
      [.start 0 ⟨"archive", seven, .transactions⟩, .resume 0 (.read 0 (.ok []))] ⟨⟨rfl, rfl, rfl⟩, rfl⟩ rfl,
      _, List.mem_singleton_self _, rfl, rfl, ?_⟩
    rintro (⟨entry, member, read⟩ | ⟨-, impossible⟩)
    · rw [List.mem_singleton.mp member] at read
      cases read
    · cases impossible
  · refine ⟨_, Transition.System.reachable_of_run _ ⟨⟨0, .empty, fun _ => .fresh, []⟩, fun _ => none⟩
      [.start 0 ⟨"all", seven, .transactions⟩, .resume 0 (.timeout 0), .resume 0 (.timeout 1), .resume 0 (.timeout 2)]
      ⟨⟨rfl, rfl, rfl⟩, rfl⟩ rfl, _, List.mem_singleton_self _, rfl, ?_, rfl⟩
    exact List.forall_mem_cons.mpr ⟨trivial, List.forall_mem_cons.mpr ⟨trivial, List.forall_mem_singleton.mpr trivial⟩⟩

/-- In every interleaving, the cache and the answers have for the archive what the disk has, or the answers have the failure. -/
theorem answers_from_disk (settings : Settings) (disk : Disk Bytes Row) (index : ArchiveIndex)
    (c : Config (World Row) (Task Row)) (reached : (system settings disk index).Reachable c) :
    c.world.Sound settings disk index :=
  (reachable_sound reached).world

/-- The second of two requests is answered from the cache. -/
theorem answers_from_disk_cached : ∃ w : World Nat, w.responses.map Response.answer = [.ok [2], .ok [2]] ∧
    w.Sound defaults twoFiles (load twoFiles none) :=
  ⟨_, rfl, answers_from_disk _ _ _ _ (Transition.System.reachable_of_run _ ⟨⟨0, .empty, fun _ => .fresh, []⟩, fun _ => none⟩
    [.start 0 ⟨"archive", seven, .events⟩, .resume 0 (.read 0 (.ok [])), .start 0 ⟨"archive", seven, .events⟩]
    ⟨⟨rfl, rfl, rfl⟩, rfl⟩ rfl)⟩

end Octraban.ColdStorage
