import Octraban.Core.Transition
import Mathlib.Data.List.Nodup

/-! middleware/apiKeyAuth.ts beside developer/keys.ts: a key's row is read by one step and the
context made from it is cached by a later one, while the key is revoked and dropped from the cache. -/
namespace Octraban.DeveloperKeys

/-- Times are in milliseconds. A JSON column that holds no array counts as nothing. -/
structure DevApiKey where
  id : String
  name : String
  developerId : String
  keyHash : String
  status : String
  tier : Option String
  rateLimitOverride : Option Int
  allowedIps : Option (List String)
  allowedEndpoints : Option (List String)
  allowedDomains : Option (List String)
  expiresAt : Option Int
  revokedAt : Option Int

structure ApiKeyContext where
  id : String
  keyName : String
  developerId : String
  tier : String
  rateLimitOverride : Option Int
  allowedIps : Option (List String)
  allowedEndpoints : Option (List String)
  allowedDomains : Option (List String)
  deriving DecidableEq

structure Request where
  xApiKey : Option String
  ip : Option String
  origin : Option String
  referer : Option String
  baseUrl : Option String
  path : Option String

/-- SHA-256 in hexadecimal, a match by ipaddr.js, and the host of a URL, if it is one. -/
structure Library where
  hashKey : String → String
  ipMatchesCidr : String → String → Bool
  hostname : String → Option String

/-- An empty header counts as none. -/
def Request.rawKey (req : Request) : Option String := req.xApiKey.filter (· ≠ "")

def extractOriginHost (library : Library) (req : Request) : Option String :=
  match req.origin.filter (· ≠ "") with
  | some origin => library.hostname origin
  | none => (req.referer.filter (· ≠ "")).bind library.hostname

def domainAllowed (host : String) (allowedDomains : List String) : Bool :=
  allowedDomains.isEmpty || allowedDomains.any fun pattern =>
    if ['*', '.'].isPrefixOf pattern.toList then
      let suffix := pattern.toList.drop 1
      suffix.isSuffixOf host.toList && suffix.length < host.toList.length
    else host = pattern

/-- `replace(/\/\/+/g, '/')` -/
def collapseSlashes : List Char → List Char
  | [] => []
  | c :: rest => if c = '/' ∧ rest.head? = some '/' then collapseSlashes rest else c :: collapseSlashes rest

def normalizeRequestPath (req : Request) : String :=
  let collapsed := collapseSlashes ((req.baseUrl.getD "").toList ++ (req.path.getD "/").toList)
  String.ofList (if 1 < collapsed.length ∧ collapsed.getLast? = some '/' then collapsed.dropLast else collapsed)

def endpointAllowed (req : Request) (allowedEndpoints : List String) : Bool :=
  allowedEndpoints.isEmpty || allowedEndpoints.any fun pattern =>
    let fullPath := normalizeRequestPath req
    if pattern.toList.getLast? = some '*' then pattern.toList.dropLast.isPrefixOf fullPath.toList
    else fullPath = pattern

/-- `next` passes the request on, with the context of its key if it came with one. -/
inductive Response where
  | next (apiKey : Option ApiKeyContext)
  | error (status : Nat) (text : String)
  deriving DecidableEq

/-- `apiKeyAuth` once the key is resolved. -/
def authorize (library : Library) (req : Request) : Option ApiKeyContext → Response
  | none => .error 401 "Invalid or revoked API key"
  | some ctx =>
    let clientIp := req.ip.getD ""
    if ctx.allowedIps.any fun ips => !ips.isEmpty && !ips.any (library.ipMatchesCidr clientIp) then
      .error 403 "IP address not permitted for this key"
    else if ctx.allowedDomains.any fun domains => !domains.isEmpty &&
        !((extractOriginHost library req).filter (· ≠ "")).any fun host => domainAllowed host domains then
      .error 403 "Origin domain not permitted for this key"
    else if ctx.allowedEndpoints.any fun endpoints => !endpoints.isEmpty && !endpointAllowed req endpoints then
      .error 403 "Endpoint not permitted for this key"
    else .next (some ctx)

def DevApiKey.context (record : DevApiKey) : ApiKeyContext where
  id := record.id
  keyName := record.name
  developerId := record.developerId
  tier := record.tier.getD "free"
  rateLimitOverride := record.rateLimitOverride
  allowedIps := record.allowedIps
  allowedEndpoints := record.allowedEndpoints
  allowedDomains := record.allowedDomains

/-- Neither `revokedAt` nor a past `expiresAt`. -/
def DevApiKey.valid (record : DevApiKey) (now : Int) : Bool :=
  record.revokedAt.isNone && record.expiresAt.all (now < ·)

structure Entry where
  ctx : Option ApiKeyContext
  expiresAt : Int

inductive Pending where
  | findFirst
  | record (found : Option DevApiKey)
  | ended

/-- A request that waits for its row; `invalidated` are the keys dropped before it started. -/
structure Call where
  request : Request
  hash : String
  started : Int
  invalidated : List String
  pending : Pending

structure Answer where
  started : Int
  invalidated : List String
  response : Response

/-- `revoking` are the ids of the rows updated whose `invalidateKeyCache` is still to come, and
`invalidated` those for which it has returned. -/
structure State where
  devApiKey : List DevApiKey
  keyCache : String → Option Entry
  now : Int
  calls : List Call
  revoking : List String
  invalidated : List String
  answers : List Answer

def State.answer (s : State) (started : Int) (invalidated : List String) (response : Response) : State :=
  { s with answers := ⟨started, invalidated, response⟩ :: s.answers }

/-- An entry that has not run out. -/
def State.cached (s : State) (hash : String) : Option Entry :=
  (s.keyCache hash).filter fun entry => s.now < entry.expiresAt

/-- `apiKeyAuth` up to its query. -/
def apiKeyAuth (library : Library) (s : State) (req : Request) : State :=
  match req.rawKey with
  | none => s.answer s.now s.invalidated (.next none)
  | some raw =>
    let hash := library.hashKey raw
    match s.cached hash with
    | some entry => s.answer s.now s.invalidated (authorize library req entry.ctx)
    | none => { s with calls := s.calls ++ [⟨req, hash, s.now, s.invalidated, .findFirst⟩] }

/-- The first active row with the hash. -/
def findFirst (s : State) (hash : String) : Option DevApiKey :=
  s.devApiKey.find? fun row => row.keyHash = hash ∧ row.status = "active"

/-- `resolveApiKey` from its query's result on: the context is cached before it is used. -/
def proceed (library : Library) (ttl : Int) (s : State) (call : Call) (record : Option DevApiKey) : State :=
  let ctx := (record.filter fun record => record.valid s.now).map DevApiKey.context
  { s with keyCache := Function.update s.keyCache call.hash (some ⟨ctx, s.now + ttl⟩) }.answer
    call.started call.invalidated (authorize library call.request ctx)

def revoke (s : State) (id : String) : State :=
  { s with
    devApiKey := s.devApiKey.map fun row => if row.id = id then { row with status := "revoked" } else row
    revoking := id :: s.revoking }

def invalidateKeyCache (s : State) (keyHash : String) : State :=
  { s with keyCache := Function.update s.keyCache keyHash none }

inductive Act where
  | elapse (ms : Nat)
  | request (req : Request)
  | read (k : Nat)
  | fail (k : Nat)
  | proceed (k : Nat)
  | revoke (id : String)
  | invalidate (id : String)

def State.setCall (s : State) (k : Nat) (call : Call) (pending : Pending) : State :=
  { s with calls := s.calls.set k { call with pending := pending } }

/-- A query that fails is answered by the error handler. -/
def step (library : Library) (ttl : Int) (s : State) : Act → Option State
  | .elapse ms => some { s with now := s.now + ms }
  | .request req => some (apiKeyAuth library s req)
  | .read k => s.calls[k]?.bind fun call =>
    match call.pending with
    | .findFirst => some (s.setCall k call (.record (findFirst s call.hash)))
    | .record _ | .ended => none
  | .fail k => s.calls[k]?.bind fun call =>
    match call.pending with
    | .findFirst => some ((s.setCall k call .ended).answer call.started call.invalidated
        (.error 503 "Key validation storage unavailable"))
    | .record _ | .ended => none
  | .proceed k => s.calls[k]?.bind fun call =>
    match call.pending with
    | .record found => some (proceed library ttl (s.setCall k call .ended) call found)
    | .findFirst | .ended => none
  | .revoke id => if s.devApiKey.any (·.id = id) then some (revoke s id) else none
  | .invalidate id =>
    if id ∈ s.revoking then
      (s.devApiKey.find? (·.id = id)).map fun row =>
        { invalidateKeyCache s row.keyHash with
          revoking := s.revoking.erase id
          invalidated := id :: s.invalidated }
    else none

/-- `id` is the table's primary key. -/
def system (library : Library) (ttl : Int) : Transition.System State Act where
  initial s := (s.devApiKey.map DevApiKey.id).Nodup ∧ (s.keyCache = fun _ => none) ∧ s.calls = [] ∧
    s.revoking = [] ∧ s.invalidated = [] ∧ s.answers = []
  step := step library ttl

/-- No request is let through with a key that was dropped, or that had expired, when it started. -/
def Refused (s : State) : Prop :=
  ∀ answer ∈ s.answers, ∀ ctx, answer.response = .next (some ctx) →
    ctx.id ∉ answer.invalidated ∧
      ∀ row ∈ s.devApiKey, row.id = ctx.id → row.expiresAt.all (answer.started < ·) = true

/-- A lookup puts no key into the cache that was dropped from it since the row was read, and no
request comes for an expired key while the cache still answers for it. -/
def Prompt (library : Library) (s : State) : Act → Prop
  | .proceed k => ∀ call ∈ s.calls[k]?, ∀ record, call.pending = .record (some record) →
      record.id ∉ s.invalidated
  | .request req => ∀ raw ∈ req.rawKey, ∀ entry ∈ s.cached (library.hashKey raw), ∀ ctx ∈ entry.ctx,
      ∀ row ∈ s.devApiKey, row.id = ctx.id → row.expiresAt.all (s.now < ·) = true
  | _ => True

/-- What a row that was read says of the table. -/
def Known (s : State) (hash id : String) : Prop := ∃ row ∈ s.devApiKey, row.id = id ∧ row.keyHash = hash

/-- A record that was read and the row it was read from agree but for the status. -/
def Read (s : State) (hash : String) (record : DevApiKey) : Prop :=
  ∃ row ∈ s.devApiKey, row.id = record.id ∧ row.keyHash = hash ∧ row.expiresAt = record.expiresAt

structure Consistent (s : State) : Prop where
  ids : ∀ row ∈ s.devApiKey, ∀ other ∈ s.devApiKey, row.id = other.id → row = other
  inactive : ∀ row ∈ s.devApiKey, row.id ∈ s.revoking ∨ row.id ∈ s.invalidated → row.status ≠ "active"
  cache : ∀ hash entry, s.keyCache hash = some entry → ∀ ctx ∈ entry.ctx,
    Known s hash ctx.id ∧ ctx.id ∉ s.invalidated
  past : ∀ call ∈ s.calls, call.started ≤ s.now ∧ ∀ id ∈ call.invalidated, id ∈ s.invalidated
  calls : ∀ call ∈ s.calls, ∀ record, call.pending = .record (some record) →
    Read s call.hash record ∧ record.id ∉ call.invalidated
  refused : Refused s

variable {library : Library} {ttl : Int} {s t : State} {req : Request} {ctx : Option ApiKeyContext}

/-- The context that a request is passed on with is the one of its key. -/
theorem authorize_next {passed : ApiKeyContext} (allowed : authorize library req ctx = .next (some passed)) :
    ctx = some passed := by
  cases ctx with
  | none => contradiction
  | some ctx =>
    simp only [authorize] at allowed
    split at allowed
    · contradiction
    · split at allowed
      · contradiction
      · split at allowed
        · contradiction
        · cases allowed
          rfl

/-- Steps that leave the rows and the dropped keys alone keep what was answered. -/
theorem Consistent.answer {started : Int} {invalidated : List String} {response : Response}
    (consistent : Consistent s) (refused : ∀ ctx, response = .next (some ctx) → ctx.id ∉ invalidated ∧
      ∀ row ∈ s.devApiKey, row.id = ctx.id → row.expiresAt.all (started < ·) = true) :
    Consistent (s.answer started invalidated response) := by
  refine ⟨consistent.ids, consistent.inactive, consistent.cache, consistent.past, consistent.calls, ?_⟩
  intro answer member
  rcases List.mem_cons.mp member with rfl | old
  · exact refused
  · exact consistent.refused answer old

/-- A call that goes on to what it has read, or ends. -/
theorem Consistent.setCall {k : Nat} {call : Call} {pending : Pending} (consistent : Consistent s)
    (found : s.calls[k]? = some call) (read : ∀ record, pending = .record (some record) →
      Read s call.hash record ∧ record.id ∉ call.invalidated) : Consistent (s.setCall k call pending) := by
  refine ⟨consistent.ids, consistent.inactive, consistent.cache, ?_, ?_, consistent.refused⟩
  · exact Transition.forall_mem_set k consistent.past (consistent.past call (List.mem_of_getElem? found))
  · exact Transition.forall_mem_set k consistent.calls read

theorem request_consistent (consistent : Consistent s) (prompt : Prompt library s (.request req)) :
    Consistent (apiKeyAuth library s req) := by
  unfold apiKeyAuth
  cases key : req.rawKey with
  | none => exact consistent.answer fun ctx passed => by cases passed
  | some raw =>
    simp only
    cases served : s.cached (library.hashKey raw) with
    | some entry =>
      refine consistent.answer fun ctx passed => ?_
      have same := authorize_next passed
      have kept := (Option.filter_eq_some_iff.mp served).1
      exact ⟨(consistent.cache _ entry kept ctx same).2, prompt raw key entry served ctx same⟩
    | none =>
      refine ⟨consistent.ids, consistent.inactive, consistent.cache, ?_, ?_, consistent.refused⟩
      · intro call member
        rcases List.mem_append.mp member with old | new
        · exact consistent.past call old
        · rw [List.mem_singleton.mp new]
          exact ⟨Int.le_refl _, fun _ => id⟩
      · intro call member record pending
        rcases List.mem_append.mp member with old | new
        · exact consistent.calls call old record pending
        · rw [List.mem_singleton.mp new] at pending
          contradiction

/-- A row that is found is active, and so its key has not been dropped. -/
theorem findFirst_read {hash : String} {record : DevApiKey} (consistent : Consistent s)
    (found : findFirst s hash = some record) : Read s hash record ∧ record.id ∉ s.invalidated := by
  unfold findFirst at found
  have member := List.mem_of_find?_eq_some found
  have chosen := List.find?_some found
  obtain ⟨same, active⟩ := of_decide_eq_true chosen
  exact ⟨⟨record, member, rfl, same, rfl⟩, fun dropped => consistent.inactive record member (.inr dropped) active⟩

theorem read_consistent {k : Nat} {call : Call} (consistent : Consistent s) (found : s.calls[k]? = some call) :
    Consistent (s.setCall k call (.record (findFirst s call.hash))) := by
  refine consistent.setCall found fun record same => ?_
  obtain ⟨read, alive⟩ := findFirst_read consistent (Pending.record.inj same)
  refine ⟨read, fun dropped => alive ?_⟩
  exact (consistent.past call (List.mem_of_getElem? found)).2 _ dropped

theorem proceed_consistent {k : Nat} {call : Call} {record : Option DevApiKey} (consistent : Consistent s)
    (found : s.calls[k]? = some call) (waits : call.pending = .record record)
    (prompt : Prompt library s (.proceed k)) :
    Consistent (proceed library ttl (s.setCall k call .ended) call record) := by
  have member := List.mem_of_getElem? found
  have ended : Consistent (s.setCall k call .ended) := consistent.setCall found fun _ same => by cases same
  -- the context comes from a valid record, whose row is in the table
  have made : ∀ ctx, (record.filter fun record => record.valid s.now).map DevApiKey.context = some ctx →
      ∃ row, record = some row ∧ row.valid s.now = true ∧ row.id = ctx.id := by
    intro ctx same
    obtain ⟨row, kept, rfl⟩ := Option.map_eq_some_iff.mp same
    obtain ⟨stored, valid⟩ := Option.filter_eq_some_iff.mp kept
    exact ⟨row, stored, valid, rfl⟩
  unfold proceed
  refine Consistent.answer ⟨ended.ids, ended.inactive, ?_, ended.past, ended.calls, ended.refused⟩ ?_
  · intro hash entry stored ctx holds
    simp only at stored
    by_cases own : hash = call.hash
    · subst own
      rw [Function.update_self] at stored
      cases stored
      obtain ⟨row, rfl, -, id⟩ := made ctx holds
      obtain ⟨⟨source, among, same, hashed, -⟩, -⟩ := consistent.calls call member row waits
      exact ⟨⟨source, among, same.trans id, hashed⟩, id ▸ prompt call found row waits⟩
    · rw [Function.update_of_ne own] at stored
      exact ended.cache hash entry stored ctx holds
  · intro ctx passed
    obtain ⟨row, rfl, valid, id⟩ := made ctx (authorize_next passed)
    obtain ⟨⟨source, among, same, -, expires⟩, alive⟩ := consistent.calls call member row waits
    refine ⟨id ▸ alive, fun other stored named => ?_⟩
    cases consistent.ids source among other stored ((same.trans id).trans named.symm)
    have unexpired := (Bool.and_eq_true_iff.mp valid).2
    have begun := (consistent.past call member).1
    rw [expires]
    cases expiry : row.expiresAt with
    | none => rfl
    | some expiresAt =>
      rw [expiry] at unexpired
      have later : s.now < expiresAt := of_decide_eq_true unexpired
      exact decide_eq_true (Int.lt_of_le_of_lt begun later)

theorem revoke_consistent (consistent : Consistent s) (id : String) : Consistent (revoke s id) := by
  let change (row : DevApiKey) : DevApiKey := if row.id = id then { row with status := "revoked" } else row
  have kept (row : DevApiKey) :
      (change row).id = row.id ∧ (change row).keyHash = row.keyHash ∧ (change row).expiresAt = row.expiresAt := by
    by_cases own : row.id = id
    · simp only [change, if_pos own, and_self]
    · simp only [change, if_neg own, and_self]
  have mapped : ∀ {row}, row ∈ (revoke s id).devApiKey → ∃ old ∈ s.devApiKey, change old = row :=
    fun member => List.mem_map.mp member
  constructor
  · intro row member other among same
    obtain ⟨old, stored, rfl⟩ := mapped member
    obtain ⟨old', stored', rfl⟩ := mapped among
    rw [(kept old).1, (kept old').1] at same
    rw [consistent.ids old stored old' stored' same]
  · intro row member dropped
    obtain ⟨old, stored, rfl⟩ := mapped member
    by_cases own : old.id = id
    · simp only [change, if_pos own]
      decide
    · rw [(kept old).1] at dropped
      simp only [change, if_neg own]
      refine consistent.inactive old stored (dropped.imp_left fun waits => ?_)
      exact (List.mem_cons.mp waits).resolve_left own
  · intro hash entry found ctx holds
    obtain ⟨⟨row, stored, named, hashed⟩, alive⟩ := consistent.cache hash entry found ctx holds
    exact ⟨⟨change row, List.mem_map_of_mem stored, (kept row).1.trans named, (kept row).2.1.trans hashed⟩, alive⟩
  · exact consistent.past
  · intro call member record waits
    obtain ⟨⟨row, stored, named, hashed, expires⟩, alive⟩ := consistent.calls call member record waits
    exact ⟨⟨change row, List.mem_map_of_mem stored, (kept row).1.trans named, (kept row).2.1.trans hashed,
      (kept row).2.2.trans expires⟩, alive⟩
  · intro answer member ctx passed
    obtain ⟨alive, unexpired⟩ := consistent.refused answer member ctx passed
    refine ⟨alive, fun row stored named => ?_⟩
    obtain ⟨old, among, rfl⟩ := mapped stored
    rw [(kept old).2.2]
    exact unexpired old among ((kept old).1.symm.trans named)

theorem invalidate_consistent {id : String} {row : DevApiKey} (consistent : Consistent s) (waits : id ∈ s.revoking)
    (stored : row ∈ s.devApiKey) (named : row.id = id) : Consistent { invalidateKeyCache s row.keyHash with
      revoking := s.revoking.erase id
      invalidated := id :: s.invalidated } := by
  constructor
  · exact consistent.ids
  · intro other member dropped
    refine consistent.inactive other member ?_
    rcases dropped with still | now
    · exact .inl (List.mem_of_mem_erase still)
    · rcases List.mem_cons.mp now with same | before
      · exact .inl (same ▸ waits)
      · exact .inr before
  · intro hash entry found ctx holds
    simp only [invalidateKeyCache] at found
    by_cases own : hash = row.keyHash
    · rw [own, Function.update_self] at found
      contradiction
    · rw [Function.update_of_ne own] at found
      obtain ⟨⟨source, among, same, hashed⟩, alive⟩ := consistent.cache hash entry found ctx holds
      refine ⟨⟨source, among, same, hashed⟩, fun dropped => ?_⟩
      rcases List.mem_cons.mp dropped with dropped | before
      · -- its row would have the hash whose entry is gone
        cases consistent.ids source among row stored ((same.trans dropped).trans named.symm)
        exact own hashed.symm
      · exact alive before
  · exact fun call member => ⟨(consistent.past call member).1,
      fun other dropped => List.mem_cons_of_mem _ ((consistent.past call member).2 other dropped)⟩
  · exact consistent.calls
  · exact consistent.refused

theorem step_consistent {a : Act} (consistent : Consistent s) (prompt : Prompt library s a)
    (stepped : step library ttl s a = some t) : Consistent t := by
  cases a with
  | elapse ms =>
    cases stepped
    refine ⟨consistent.ids, consistent.inactive, consistent.cache, fun call member => ?_, consistent.calls,
      consistent.refused⟩
    obtain ⟨begun, dropped⟩ := consistent.past call member
    refine ⟨?_, dropped⟩
    simp only
    omega
  | request req =>
    cases stepped
    exact request_consistent consistent prompt
  | read k =>
    obtain ⟨call, found, stepped⟩ := Option.bind_eq_some_iff.mp stepped
    cases waits : call.pending with
    | findFirst =>
      simp only [waits] at stepped
      cases stepped
      exact read_consistent consistent found
    | record | ended => simp [waits] at stepped
  | fail k =>
    obtain ⟨call, found, stepped⟩ := Option.bind_eq_some_iff.mp stepped
    cases waits : call.pending with
    | findFirst =>
      simp only [waits] at stepped
      cases stepped
      refine (consistent.setCall found fun _ same => ?_).answer fun _ passed => ?_
      · contradiction
      · contradiction
    | record | ended => simp [waits] at stepped
  | proceed k =>
    obtain ⟨call, found, stepped⟩ := Option.bind_eq_some_iff.mp stepped
    cases waits : call.pending with
    | record row =>
      simp only [waits] at stepped
      cases stepped
      exact proceed_consistent consistent found waits prompt
    | findFirst | ended => simp [waits] at stepped
  | revoke id =>
    simp only [step] at stepped
    split at stepped
    · cases stepped
      exact revoke_consistent consistent id
    · contradiction
  | invalidate id =>
    simp only [step] at stepped
    split at stepped
    · rename_i waits
      obtain ⟨row, found, rfl⟩ := Option.map_eq_some_iff.mp stepped
      have named : row.id = id := by simpa using List.find?_some found
      exact invalidate_consistent consistent waits (List.mem_of_find?_eq_some found) named
    · contradiction

theorem initial_consistent (start : (system library ttl).initial s) : Consistent s := by
  obtain ⟨ids, cache, calls, revoking, invalidated, answers⟩ := start
  constructor
  · exact fun row member other among same => List.inj_on_of_nodup_map ids member among same
  · simp [revoking, invalidated]
  · simp [cache]
  · simp [calls]
  · simp [calls]
  · simp [Refused, answers]

/-- In every run whose lookups cache no key dropped since they read it, and in which no request
comes for an expired key that is still cached, dropped and expired keys are refused. -/
theorem prompt_refused (reached : (system library ttl).ReachableWhen (Prompt library) s) : Refused s := by
  have consistent : Consistent s := reached.invariant initial_consistent step_consistent
  exact consistent.refused

def sample : Library where
  hashKey raw := if raw = "sk_a" then "4cdaf970137f67ee659f7f37a7f1deb1ed099c16ca0718aff7d961fcea0ca704" else ""
  ipMatchesCidr ip cidr := ip = cidr
  hostname _ := none

def stored : State where
  devApiKey := [⟨"key-1", "backend", "dev-1", sample.hashKey "sk_a", "active", some "pro", none, none, none, none,
    some 20000, none⟩]
  keyCache _ := none
  now := 0
  calls := []
  revoking := []
  invalidated := []
  answers := []

def withKey : Request := ⟨some "sk_a", some "10.0.0.1", none, none, some "/api/v1", some "/events"⟩

/-- The key is looked up, used from the cache, revoked, and refused. -/
def revoked : List Act :=
  [.request withKey, .read 0, .proceed 0, .elapse 5000, .request withKey, .revoke "key-1", .invalidate "key-1",
    .request withKey, .read 1, .proceed 1]

def prompt (s : State) : Act → Bool
  | .proceed k => s.calls[k]?.all fun call => match call.pending with
    | .record (some record) => record.id ∉ s.invalidated
    | _ => true
  | .request _ => s.devApiKey.all fun row => row.expiresAt.all (s.now < ·)
  | _ => true

theorem prompt_sound (library : Library) (s : State) (a : Act) (checked : prompt s a = true) :
    Prompt library s a := by
  cases a with
  | proceed k =>
    intro call found record waits
    rw [Option.mem_def] at found
    simp only [prompt, found, Option.all_some, waits] at checked
    exact of_decide_eq_true checked
  | request req =>
    intro raw _ entry _ ctx _ row member _
    exact List.all_eq_true.mp checked row member
  | elapse | read | fail | revoke | invalidate => trivial

theorem revoked_refused : ∃ s, (system sample 10000).run stored revoked = some s ∧
    s.answers.map Answer.response = [.error 401 "Invalid or revoked API key",
      .next (some ⟨"key-1", "backend", "dev-1", "pro", none, none, none, none⟩),
      .next (some ⟨"key-1", "backend", "dev-1", "pro", none, none, none, none⟩)] ∧ Refused s := by
  have start : (system sample 10000).initial stored := ⟨by decide, rfl, rfl, rfl, rfl, rfl⟩
  refine ⟨_, rfl, by decide, prompt_refused (Transition.System.reachableWhen_of_run _ stored revoked start ?_ rfl)⟩
  exact Transition.System.guarded_of_guardedBy prompt (prompt_sound sample) (by decide)

/-- The lookup has read the row before it is revoked, and caches it after it was dropped. -/
def overtaken : List Act :=
  [.request withKey, .read 0, .revoke "key-1", .invalidate "key-1", .proceed 0, .request withKey]

theorem overtaken_passes : ¬ ∀ library ttl s, (system library ttl).Reachable s → Refused s := by
  intro claim
  have start : (system sample 10000).initial stored := ⟨by decide, rfl, rfl, rfl, rfl, rfl⟩
  have reached := Transition.System.reachable_of_run (system sample 10000) stored overtaken start rfl
  have refused := claim sample 10000 _ reached _ List.mem_cons_self
    ⟨"key-1", "backend", "dev-1", "pro", none, none, none, none⟩ (by decide)
  exact refused.1 (by decide)

end Octraban.DeveloperKeys
