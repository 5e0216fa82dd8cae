import Octraban.Api.AllowList
import Octraban.Core.Transition

/-! apiKeyAuth.js beside keyManager.js: the authenticator answers from copies of rows that
it keeps by raw key, while the administration changes the rows themselves. -/
namespace Octraban.ApiKeys
open JavaScript AllowList

inductive Tier where
  | unauthenticated
  | free
  | pro
  | enterprise
  deriving DecidableEq

/-- `rawKey.slice(0, 8)`. -/
def keyPrefixOf (rawKey : String) : String := String.ofList (rawKey.toList.take 8)

def isBase64Url (c : Char) : Bool := c.isAlphanum || c = '-' || c = '_'

/-- `generateRawKey`: 32 random bytes as URL-safe base64. -/
abbrev RawKey := { text : String // text.length = 43 ∧ text.toList.all isBase64Url = true }

/-- The hashes of generated keys; the number of a hash is its salt. -/
structure Bcrypt where
  hash : RawKey → Nat → String
  compare : String → String → Bool
  compare_hash : ∀ text rawKey salt, compare text (hash rawKey salt) = true ↔ text = rawKey.val

structure ApiKey where
  id : String
  name : String
  keyHash : String
  keyPrefix : String
  tier : Tier
  rateLimit : Option Int
  allowedIps : Option (List String)
  allowedEndpoints : Option (List String)
  expiresAt : Option Int
  revoked : Bool

structure Request where
  apiKey : Option String
  forwarded : Option String
  remoteAddress : Option String
  path : String

structure RateContext where
  clientId : String
  tier : Tier
  rateLimit : Option Int
  keyId : Option String
  keyName : Option String
  deriving DecidableEq

inductive Response where
  | error (status : Nat) (text : String)
  | next (rateContext : RateContext)
  deriving DecidableEq

def endpointAllowed (endpoint : String) (patterns : List String) : Bool :=
  if patterns.isEmpty then true
  else patterns.any fun pattern =>
    if pattern.toList.getLast? = some '*' then pattern.toList.dropLast.isPrefixOf endpoint.toList
    else endpoint = pattern

/-- An empty header counts as none. -/
def getClientIp (req : Request) : String :=
  match req.forwarded.filter (· ≠ "") with
  | some forwarded => trim ((split forwarded ',').headD "")
  | none => req.remoteAddress.getD "0.0.0.0"

def Request.rawKey (req : Request) : Option String := req.apiKey.filter (· ≠ "")

/-- The checks of a record, and the context of a request that passes them. -/
def authorize (now : Nat) (req : Request) (keyRecord : ApiKey) : Response :=
  if keyRecord.revoked then .error 401 "API key revoked"
  else if keyRecord.expiresAt.any fun expiresAt => expiresAt < (now : Int) then .error 401 "API key expired"
  else if keyRecord.allowedIps.any fun ips => !ips.isEmpty && !ipInCidrList (getClientIp req) ips then
    .error 403 "IP not permitted"
  else if keyRecord.allowedEndpoints.any fun patterns =>
      !patterns.isEmpty && !endpointAllowed req.path patterns then
    .error 403 "Endpoint not permitted"
  else .next ⟨keyRecord.id, keyRecord.tier, keyRecord.rateLimit, some keyRecord.id, some keyRecord.name⟩

def keyCacheTtlMs : Nat := 30000

/-- `readAt` counts the operations that came before the record was read. -/
structure Entry where
  keyRecord : ApiKey
  setAt : Nat
  readAt : Nat

inductive Pending where
  | select
  | compare (rows : List ApiKey) (readAt : Nat)
  | ended

/-- `arrived` counts the operations that came before the request. -/
structure Call where
  request : Request
  rawKey : String
  arrived : Nat
  pending : Pending

/-- The cached copy an answer rests on: its age, and when it was read. -/
structure Hit where
  age : Nat
  readAt : Nat

structure Answer where
  request : Request
  arrived : Nat
  withdrawn : Option Nat
  hit : Option Hit
  response : Response

/-- `withdrawnAt` numbers, for each raw key, the `deleteKey` or `rotateKey` that took it
back and that no update has undone since. -/
structure State where
  apiKeys : List ApiKey
  generated : List RawKey
  keyCache : String → Option Entry
  now : Nat
  calls : List Call
  answers : List Answer
  operations : Nat
  withdrawnAt : String → Option Nat

def State.answer (s : State) (req : Request) (arrived : Nat) (hit : Option Hit)
    (response : Response) : State :=
  { s with answers := ⟨req, arrived, req.rawKey.bind s.withdrawnAt, hit, response⟩ :: s.answers }

/-- `keyCache.get`: an entry past its lifetime is not returned. -/
def State.cached (s : State) (rawKey : String) : Option Entry :=
  (s.keyCache rawKey).filter fun entry => s.now - entry.setAt ≤ keyCacheTtlMs

/-- The authenticator up to its first await. -/
def apiKeyAuthenticator (hashIp : String → String) (s : State) (req : Request) : State :=
  match req.rawKey with
  | none => s.answer req s.operations none
      (.next ⟨hashIp (getClientIp req), .unauthenticated, none, none, none⟩)
  | some rawKey =>
    match s.cached rawKey with
    | some entry => s.answer req s.operations (some ⟨s.now - entry.setAt, entry.readAt⟩)
        (authorize s.now req entry.keyRecord)
    | none => { s with calls := s.calls ++ [⟨req, rawKey, s.operations, .select⟩] }

/-- A request goes on when what it awaits is there, or has failed. `lookupKeyInDb` tries
the rows of a prefix in turn. -/
def resume (bcrypt : Bcrypt) (s : State) (call : Call) (failed : Bool) : State × Pending :=
  let reply (status : Nat) (text : String) :=
    (s.answer call.request call.arrived none (.error status text), Pending.ended)
  match call.pending with
  | .select =>
    if failed then reply 500 "Internal server error"
    else
      let rows := s.apiKeys.filter fun row => row.keyPrefix = keyPrefixOf call.rawKey
      if rows.isEmpty then reply 401 "Invalid API key" else (s, .compare rows s.operations)
  | .compare rows readAt =>
    if failed then reply 500 "Internal server error"
    else
      match rows.find? fun row => bcrypt.compare call.rawKey row.keyHash with
      | none => reply 401 "Invalid API key"
      | some keyRecord =>
        ({ s with keyCache := Function.update s.keyCache call.rawKey (some ⟨keyRecord, s.now, readAt⟩) }.answer
          call.request call.arrived none (authorize s.now call.request keyRecord), .ended)
  | .ended => (s, .ended)

structure NewKey where
  name : String
  tier : Tier
  rateLimit : Option Int
  allowedIps : Option (List String)
  allowedEndpoints : Option (List String)
  expiresAt : Option Int

def NewKey.valid (data : NewKey) : Bool := trim data.name ≠ "" && data.rateLimit.all (0 < ·)

/-- The database gives `id` to the row. -/
def createKey (bcrypt : Bcrypt) (s : State) (id : String) (data : NewKey) (rawKey : RawKey)
    (salt : Nat) : State :=
  { s with
    apiKeys := s.apiKeys ++ [⟨id, trim data.name, bcrypt.hash rawKey salt, keyPrefixOf rawKey.val, data.tier,
      data.rateLimit, data.allowedIps, data.allowedEndpoints, data.expiresAt, false⟩]
    generated := rawKey :: s.generated
    operations := s.operations + 1 }

/-- The updatable fields; a field may be absent, and a nullable one may be null. -/
structure Updates where
  name : Option String
  tier : Option Tier
  rateLimit : Option (Option Int)
  allowedIps : Option (Option (List String))
  allowedEndpoints : Option (Option (List String))
  expiresAt : Option (Option Int)
  revoked : Option Bool

def Updates.apply (updates : Updates) (row : ApiKey) : ApiKey :=
  { row with
    name := updates.name.getD row.name
    tier := updates.tier.getD row.tier
    rateLimit := updates.rateLimit.getD row.rateLimit
    allowedIps := updates.allowedIps.getD row.allowedIps
    allowedEndpoints := updates.allowedEndpoints.getD row.allowedEndpoints
    expiresAt := updates.expiresAt.getD row.expiresAt
    revoked := updates.revoked.getD row.revoked }

def ApiKey.revoke (row : ApiKey) : ApiKey := { row with revoked := true }

def ApiKey.rekey (keyHash keyPrefix : String) (row : ApiKey) : ApiKey :=
  { row with keyHash := keyHash, keyPrefix := keyPrefix }

/-- `UPDATE api_keys ... WHERE id = $1`. -/
def State.updateRow (s : State) (id : String) (change : ApiKey → ApiKey) : List ApiKey :=
  s.apiKeys.map fun row => if row.id = id then change row else row

/-- `none` where the operation throws `API key not found`. -/
def State.findKey (s : State) (id : String) : Option ApiKey := s.apiKeys.find? (·.id = id)

def updateKey (bcrypt : Bcrypt) (s : State) (id : String) (updates : Updates) : Option State :=
  (s.findKey id).map fun row =>
    { s with
      apiKeys := s.updateRow id updates.apply
      withdrawnAt := fun rawKey =>
        if updates.revoked = some false ∧ bcrypt.compare rawKey row.keyHash = true then none
        else s.withdrawnAt rawKey
      operations := s.operations + 1 }

/-- The raw keys of a hash are withdrawn by the next operation, unless they already are. -/
def State.withdraw (s : State) (bcrypt : Bcrypt) (keyHash rawKey : String) : Option Nat :=
  if bcrypt.compare rawKey keyHash = true then some ((s.withdrawnAt rawKey).getD (s.operations + 1))
  else s.withdrawnAt rawKey

def deleteKey (bcrypt : Bcrypt) (s : State) (id : String) : Option State :=
  (s.findKey id).map fun row =>
    { s with
      apiKeys := s.updateRow id ApiKey.revoke
      withdrawnAt := s.withdraw bcrypt row.keyHash
      operations := s.operations + 1 }

def rotateKey (bcrypt : Bcrypt) (s : State) (id : String) (rawKey : RawKey) (salt : Nat) : Option State :=
  (s.findKey id).map fun row =>
    { s with
      apiKeys := s.updateRow id (.rekey (bcrypt.hash rawKey salt) (keyPrefixOf rawKey.val))
      generated := rawKey :: s.generated
      withdrawnAt := s.withdraw bcrypt row.keyHash
      operations := s.operations + 1 }

inductive Act where
  | elapse (ms : Nat)
  | evict (rawKey : String)
  | request (req : Request)
  | resume (k : Nat) (failed : Bool)
  | createKey (id : String) (data : NewKey) (rawKey : RawKey) (salt : Nat)
  | updateKey (id : String) (updates : Updates)
  | deleteKey (id : String)
  | rotateKey (id : String) (rawKey : RawKey) (salt : Nat)

/-- The database gives no id twice, and 32 random bytes never come again. An operation
that throws changes nothing and is no step. -/
def step (bcrypt : Bcrypt) (hashIp : String → String) (s : State) : Act → Option State
  | .elapse ms => some { s with now := s.now + ms }
  | .evict rawKey => some { s with keyCache := Function.update s.keyCache rawKey none }
  | .request req => some (apiKeyAuthenticator hashIp s req)
  | .resume k failed => s.calls[k]?.map fun call =>
    let (t, next) := resume bcrypt s call failed
    { t with calls := s.calls.set k { call with pending := next } }
  | .createKey id data rawKey salt =>
    if data.valid ∧ s.apiKeys.all (·.id ≠ id) ∧ rawKey ∉ s.generated then
      some (createKey bcrypt s id data rawKey salt)
    else none
  | .updateKey id updates => updateKey bcrypt s id updates
  | .deleteKey id => deleteKey bcrypt s id
  | .rotateKey id rawKey salt =>
    if rawKey ∉ s.generated then rotateKey bcrypt s id rawKey salt else none

def empty : State := ⟨[], [], fun _ => none, 0, [], [], 0, fun _ => none⟩

def system (bcrypt : Bcrypt) (hashIp : String → String) : Transition.System State Act where
  initial s := s = empty
  step := step bcrypt hashIp

/-- A request that came once the key had been withdrawn, and is let through while it still is. -/
def Answer.Late (answer : Answer) (withdrawn : Nat) : Prop :=
  answer.withdrawn = some withdrawn ∧ withdrawn ≤ answer.arrived ∧
    ∃ rateContext, answer.response = .next rateContext

/-- It was answered from a copy within its lifetime, read before the key was withdrawn. -/
def Answer.Stale (answer : Answer) (withdrawn : Nat) : Prop :=
  ∃ hit, answer.hit = some hit ∧ hit.age ≤ keyCacheTtlMs ∧ hit.readAt < withdrawn

/-- No raw key belongs to two rows, and a withdrawn one to none that is not revoked. -/
structure Table (bcrypt : Bcrypt) (s : State) : Prop where
  hashed : ∀ row ∈ s.apiKeys, ∃ rawKey ∈ s.generated, ∃ salt, row.keyHash = bcrypt.hash rawKey salt
  ids : ∀ row ∈ s.apiKeys, ∀ other ∈ s.apiKeys, row.id = other.id → row = other
  keys : ∀ row ∈ s.apiKeys, ∀ other ∈ s.apiKeys, ∀ rawKey, bcrypt.compare rawKey row.keyHash = true →
    bcrypt.compare rawKey other.keyHash = true → row = other
  issued : ∀ rawKey withdrawn, s.withdrawnAt rawKey = some withdrawn →
    ∃ known ∈ s.generated, rawKey = known.val
  revoked : ∀ rawKey withdrawn, s.withdrawnAt rawKey = some withdrawn →
    ∀ row ∈ s.apiKeys, bcrypt.compare rawKey row.keyHash = true → row.revoked = true

/-- A copy that is not revoked was read before the key was withdrawn. -/
structure Read (operations : Nat) (withdrawnAt : Option Nat) (keyRecord : ApiKey) (readAt : Nat) : Prop where
  past : readAt ≤ operations
  before : keyRecord.revoked = false → ∀ withdrawn, withdrawnAt = some withdrawn → readAt < withdrawn

abbrev State.Read (s : State) (rawKey : String) : ApiKey → Nat → Prop :=
  ApiKeys.Read s.operations (s.withdrawnAt rawKey)

structure Copies (bcrypt : Bcrypt) (s : State) : Prop where
  cache : ∀ rawKey entry, s.keyCache rawKey = some entry → s.Read rawKey entry.keyRecord entry.readAt
  named : ∀ call ∈ s.calls, call.request.rawKey = some call.rawKey
  arrived : ∀ call ∈ s.calls, call.arrived ≤ s.operations
  calls : ∀ call ∈ s.calls, ∀ rows readAt, call.pending = .compare rows readAt →
    call.arrived ≤ readAt ∧ ∀ row ∈ rows, bcrypt.compare call.rawKey row.keyHash = true →
      s.Read call.rawKey row readAt
  answers : ∀ answer ∈ s.answers, ∀ withdrawn, answer.Late withdrawn → answer.Stale withdrawn

structure Consistent (bcrypt : Bcrypt) (s : State) : Prop where
  table : Table bcrypt s
  copies : Copies bcrypt s

variable {bcrypt : Bcrypt} {hashIp : String → String}

theorem authorize_unrevoked {now : Nat} {req : Request} {keyRecord : ApiKey} {rateContext : RateContext}
    (passed : authorize now req keyRecord = .next rateContext) : keyRecord.revoked = false := by
  cases revoked : keyRecord.revoked with
  | false => rfl
  | true => simp [authorize, revoked] at passed

/-- What an operation keeps of the copies: it withdraws keys only as the latest one. -/
theorem Copies.operate {s t : State} (copies : Copies bcrypt s) (cache : t.keyCache = s.keyCache)
    (calls : t.calls = s.calls) (answers : t.answers = s.answers)
    (next : t.operations = s.operations + 1)
    (withdrawn : ∀ rawKey withdrawn, t.withdrawnAt rawKey = some withdrawn →
      s.withdrawnAt rawKey = some withdrawn ∨ withdrawn = s.operations + 1) : Copies bcrypt t := by
  have read (rawKey : String) (keyRecord : ApiKey) (readAt : Nat) (old : s.Read rawKey keyRecord readAt) :
      t.Read rawKey keyRecord readAt := by
    constructor
    · rw [next]
      exact Nat.le_succ_of_le old.past
    · intro valid w taken
      rcases withdrawn rawKey w taken with before | rfl
      · exact old.before valid w before
      · exact Nat.lt_succ_of_le old.past
  constructor
  · intro rawKey entry found
    rw [cache] at found
    exact read _ _ _ (copies.cache rawKey entry found)
  · rw [calls]
    exact copies.named
  · rw [calls, next]
    exact fun call member => Nat.le_succ_of_le (copies.arrived call member)
  · rw [calls]
    intro call member rows readAt comparing
    obtain ⟨later, reads⟩ := copies.calls call member rows readAt comparing
    exact ⟨later, fun row listed same => read _ _ _ (reads row listed same)⟩
  · rw [answers]
    exact copies.answers

theorem findKey_some {s : State} {id : String} {row : ApiKey} (found : s.findKey id = some row) :
    row ∈ s.apiKeys ∧ row.id = id :=
  ⟨List.mem_of_find?_eq_some found, by simpa using List.find?_some found⟩

/-- A row after an update is an old row, or the changed one. -/
theorem mem_updateRow {s : State} {row changed : ApiKey} {change : ApiKey → ApiKey}
    (table : Table bcrypt s) (found : s.findKey row.id = some row)
    (member : changed ∈ s.updateRow row.id change) :
    (changed ∈ s.apiKeys ∧ changed.id ≠ row.id) ∨ changed = change row := by
  obtain ⟨old, listed, same⟩ := List.mem_map.mp member
  by_cases own : old.id = row.id
  · right
    rw [if_pos own, table.ids old listed row (findKey_some found).1 own] at same
    exact same.symm
  · left
    rw [if_neg own] at same
    rw [← same]
    exact ⟨listed, own⟩

/-- The changed row keeps the invariant when its hash is new or its own, and it is revoked
for every raw key of that hash which is withdrawn. -/
theorem Table.change {s t : State} {row : ApiKey} (change : ApiKey → ApiKey) (table : Table bcrypt s)
    (found : s.findKey row.id = some row) (id : (change row).id = row.id)
    (rows : t.apiKeys = s.updateRow row.id change) (generated : s.generated ⊆ t.generated)
    (hashed : ∃ rawKey ∈ t.generated, ∃ salt, (change row).keyHash = bcrypt.hash rawKey salt)
    (keys : ∀ other ∈ s.apiKeys, other.id ≠ row.id → ∀ rawKey,
      bcrypt.compare rawKey (change row).keyHash = true → ¬ bcrypt.compare rawKey other.keyHash = true)
    (taken : ∀ rawKey withdrawn, t.withdrawnAt rawKey = some withdrawn →
      s.withdrawnAt rawKey = some withdrawn ∨ bcrypt.compare rawKey row.keyHash = true)
    (revoked : ∀ rawKey withdrawn, t.withdrawnAt rawKey = some withdrawn →
      bcrypt.compare rawKey (change row).keyHash = true → (change row).revoked = true) :
    Table bcrypt t := by
  have listed := (findKey_some found).1
  have cases {other : ApiKey} (member : other ∈ t.apiKeys) :
      (other ∈ s.apiKeys ∧ other.id ≠ row.id) ∨ other = change row := by
    rw [rows] at member
    exact mem_updateRow table found member
  constructor
  · intro other member
    rcases cases member with ⟨old, _⟩ | rfl
    · obtain ⟨known, issued, salt, same⟩ := table.hashed other old
      exact ⟨known, generated issued, salt, same⟩
    · exact hashed
  · intro first member second member' same
    rcases cases member with ⟨old, differs⟩ | rfl <;> rcases cases member' with ⟨old', differs'⟩ | rfl
    · exact table.ids first old second old' same
    · exact absurd (same.trans id) differs
    · exact absurd (same.symm.trans id) differs'
    · rfl
  · intro first member second member' rawKey matched matched'
    rcases cases member with ⟨old, differs⟩ | rfl <;> rcases cases member' with ⟨old', differs'⟩ | rfl
    · exact table.keys first old second old' rawKey matched matched'
    · exact absurd matched (keys first old differs rawKey matched')
    · exact absurd matched' (keys second old' differs' rawKey matched)
    · rfl
  · intro rawKey withdrawn at_
    rcases taken rawKey withdrawn at_ with before | own
    · obtain ⟨known, issued, same⟩ := table.issued rawKey withdrawn before
      exact ⟨known, generated issued, same⟩
    · obtain ⟨known, issued, salt, same⟩ := table.hashed row listed
      rw [same, bcrypt.compare_hash] at own
      exact ⟨known, generated issued, own⟩
  · intro rawKey withdrawn at_ other member matched
    rcases cases member with ⟨old, differs⟩ | rfl
    · rcases taken rawKey withdrawn at_ with before | own
      · exact table.revoked rawKey withdrawn before other old matched
      · rw [table.keys other old row listed rawKey matched own] at differs
        exact absurd rfl differs
    · exact revoked rawKey withdrawn at_ matched

theorem Table.fresh {s : State} {rawKey : RawKey} {row : ApiKey} (table : Table bcrypt s)
    (fresh : rawKey ∉ s.generated) (listed : row ∈ s.apiKeys) :
    ¬ bcrypt.compare rawKey.val row.keyHash = true := by
  obtain ⟨known, issued, salt, same⟩ := table.hashed row listed
  rw [same, bcrypt.compare_hash]
  intro equal
  exact fresh (Subtype.ext equal ▸ issued)

theorem Copies.answer {s : State} {req : Request} {arrived : Nat} {hit : Option Hit} {response : Response}
    (copies : Copies bcrypt s)
    (excused : ∀ withdrawn, Answer.Late ⟨req, arrived, req.rawKey.bind s.withdrawnAt, hit, response⟩ withdrawn →
      Answer.Stale ⟨req, arrived, req.rawKey.bind s.withdrawnAt, hit, response⟩ withdrawn) :
    Copies bcrypt (s.answer req arrived hit response) := by
  refine ⟨copies.cache, copies.named, copies.arrived, copies.calls, ?_⟩
  intro answer member
  rcases List.mem_cons.mp member with rfl | old
  · exact excused
  · exact copies.answers answer old

theorem Copies.refuse {s : State} {req : Request} {arrived status : Nat} {hit : Option Hit} {text : String}
    (copies : Copies bcrypt s) : Copies bcrypt (s.answer req arrived hit (.error status text)) := by
  apply copies.answer
  rintro withdrawn ⟨_, _, rateContext, passed⟩
  contradiction

/-- A request answered from a copy read later than it came is not late. -/
theorem Copies.authorize {s : State} {req : Request} {rawKey : String} {arrived readAt : Nat}
    {keyRecord : ApiKey} (copies : Copies bcrypt s) (named : req.rawKey = some rawKey)
    (read : s.Read rawKey keyRecord readAt) (later : arrived ≤ readAt) :
    Copies bcrypt (s.answer req arrived none (authorize s.now req keyRecord)) := by
  apply copies.answer
  rintro withdrawn ⟨taken, early, rateContext, passed⟩
  rw [named] at taken
  have before := read.before (authorize_unrevoked passed) withdrawn taken
  exact absurd (Nat.lt_of_le_of_lt later before) (Nat.not_lt.mpr early)

/-- Only the call that goes on changes what it awaits. -/
theorem Copies.proceed {s : State} {k : Nat} {call : Call} {next : Pending} (copies : Copies bcrypt s)
    (found : s.calls[k]? = some call)
    (reads : ∀ rows readAt, next = .compare rows readAt → call.arrived ≤ readAt ∧
      ∀ row ∈ rows, bcrypt.compare call.rawKey row.keyHash = true → s.Read call.rawKey row readAt) :
    Copies bcrypt { s with calls := s.calls.set k { call with pending := next } } := by
  have listed := List.mem_of_getElem? found
  constructor
  · exact copies.cache
  · exact Transition.forall_mem_set k copies.named (copies.named call listed)
  · exact Transition.forall_mem_set k copies.arrived (copies.arrived call listed)
  · exact Transition.forall_mem_set k copies.calls reads
  · exact copies.answers

theorem Copies.update {s : State} (copies : Copies bcrypt s) (rawKey : String) (copy : Option Entry)
    (read : ∀ entry, copy = some entry → s.Read rawKey entry.keyRecord entry.readAt) :
    Copies bcrypt { s with keyCache := Function.update s.keyCache rawKey copy } := by
  refine ⟨?_, copies.named, copies.arrived, copies.calls, copies.answers⟩
  intro other entry stored
  have stored : Function.update s.keyCache rawKey copy other = some entry := stored
  by_cases same : other = rawKey
  · subst same
    rw [Function.update_self] at stored
    exact read entry stored
  · rw [Function.update_of_ne same] at stored
    exact copies.cache other entry stored

def firstKey : RawKey := ⟨"q3R9xT1mB7vK2nW8sD5fG0hJ4lZ6cY-_aQeUiOpLkMn", by decide⟩

def presented : Request := ⟨some firstKey.val, none, some "10.0.0.1", "/api/events"⟩

end Octraban.ApiKeys
