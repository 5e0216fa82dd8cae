import Octraban.Core.JavaScript
import Octraban.Core.Tally
import Octraban.Core.Transition

/-! eventBroadcaster.ts: an upgrade is authenticated while others go on, and the checks of
the caps and the registration come after it, in one piece. -/
namespace Octraban.EventBroadcaster
open JavaScript Transition System

structure Config where
  wsAllowedOrigins : String
  wsMaxConnectionsGlobal : Nat
  wsMaxConnectionsPerIp : Nat
  wsMaxFiltersPerConnection : Nat

inductive Header where
  | one (value : String)
  | many (values : List String)

/-- `searchParams` are those of the parsed URL. -/
structure Request where
  url : Option String
  xForwardedFor : Option Header
  origin : Option String
  remoteAddress : Option String
  searchParams : List (String × String)

structure WsAuthError where
  code : Nat
  reason : String

def WS_CLOSE_FORBIDDEN : Nat := 4403
def WS_CLOSE_LIMIT_EXCEEDED : Nat := 4429

structure Client where
  ws : Nat
  contractFilter : Option String
  eventTypeFilter : Option String
  ip : String
  isAlive : Bool
  identity : String

/-- An upgrade that waits for `authenticate`. -/
structure Upgrade where
  req : Request
  socket : Nat
  originError : Option WsAuthError

inductive Authentication where
  | resolved (identity : String)
  | rejected (err : Option WsAuthError)

inductive Closing where
  | close (code : Nat) (reason : String)
  | terminate

/-- `made` holds every client object, and `clients` the places there of the members.
`servers` has an HTTP server once for each `upgrade` listener on it. -/
structure State where
  servers : List Nat
  wss : Bool
  heartbeatTimer : Bool
  upgrades : List Upgrade
  upgraded : List Nat
  made : List Client
  clients : List Nat
  connsByIp : OrderedMap String Nat
  closings : List (Nat × Closing)

def initial : State := ⟨[], false, false, [], [], [], [], .empty, []⟩

/-- None where `forwarded[0]` is undefined, and `split` throws. -/
def remoteIp (req : Request) : Option String :=
  let fallback := req.remoteAddress.getD "unknown"
  let first (text : String) : String := trim ((split text ',').headD "")
  let extract (text : String) : String := if first text ≠ "" then first text else fallback
  match req.xForwardedFor with
  | none | some (.one "") => some fallback
  | some (.one text) => some (extract text)
  | some (.many values) => values.head?.map extract

def validateOrigin (req : Request) (allowedOrigins : String) : Option WsAuthError :=
  let origin := req.origin.getD ""
  let allowed := ((split allowedOrigins ',').map trim).filter (· ≠ "")
  if allowedOrigins = "" ∨ origin = "" ∨ origin ∈ allowed then none
  else some ⟨WS_CLOSE_FORBIDDEN, "Origin not allowed"⟩

def incIp (s : State) (ip : String) : State := { s with connsByIp := Tally.inc s.connsByIp ip }

def decIp (s : State) (ip : String) : State := { s with connsByIp := Tally.dec s.connsByIp ip }

/-- The ip of the object at a place. -/
def State.ip (s : State) (c : Nat) : String := (s.made[c]?.map Client.ip).getD ""

def removeClient (s : State) (c : Nat) : State :=
  if c ∈ s.clients then decIp { s with clients := s.clients.erase c } (s.ip c) else s

def rejectUpgradedSocket (s : State) (ws : Nat) (code : Nat) (reason : String) : State :=
  { s with closings := s.closings ++ [(ws, .close code reason)] }

/-- The `'connection'` handler. -/
def connection (s : State) (ws : Nat) (identity ip : String) (contractFilter eventTypeFilter : Option String) :
    State :=
  let client : Client := ⟨ws, contractFilter, eventTypeFilter, ip, true, identity⟩
  incIp { s with made := s.made ++ [client], clients := s.clients ++ [s.made.length] } ip

/-- The callback of the handshake of an authenticated upgrade. -/
def accept (config : Config) (u : Upgrade) (identity ip : String) (s : State) : State :=
  match u.originError with
  | some err => rejectUpgradedSocket s u.socket err.code err.reason
  | none =>
    if s.clients.length ≥ config.wsMaxConnectionsGlobal then
      rejectUpgradedSocket s u.socket WS_CLOSE_LIMIT_EXCEEDED "Global connection limit reached"
    else if (s.connsByIp.get ip).getD 0 ≥ config.wsMaxConnectionsPerIp then
      rejectUpgradedSocket s u.socket WS_CLOSE_LIMIT_EXCEEDED "Per-IP connection limit reached"
    else
      let contractFilter := u.req.searchParams.lookup "contract"
      let eventTypeFilter := u.req.searchParams.lookup "eventType"
      let filterCount := ([contractFilter, eventTypeFilter].filter fun filter => filter.getD "" ≠ "").length
      if filterCount > config.wsMaxFiltersPerConnection then
        rejectUpgradedSocket s u.socket WS_CLOSE_LIMIT_EXCEEDED "Filter/subscription limit per connection exceeded"
      else connection s u.socket identity ip contractFilter eventTypeFilter

/-- None where it throws: there is no server, or the socket has been upgraded before. A
handshake that is not completed has no callback. -/
def handleUpgrade (s : State) (socket : Nat) (completed : Bool) (callback : State → State) : Option State :=
  if !s.wss || socket ∈ s.upgraded then none
  else if completed then some (callback { s with upgraded := socket :: s.upgraded })
  else some s

/-- A second throw is an unhandled rejection. -/
def refuse (s : State) (u : Upgrade) (completed : Bool) (err : Option WsAuthError) : State :=
  let code := (err.map WsAuthError.code).getD 4401
  let reason := (err.map WsAuthError.reason).getD "Authentication required"
  (handleUpgrade s u.socket completed fun s => rejectUpgradedSocket s u.socket code reason).getD s

/-- What follows `authenticate`: `then`, and `catch` for what it throws. -/
def authenticated (config : Config) (s : State) (u : Upgrade) (completed : Bool) : Authentication → State
  | .resolved identity =>
    match remoteIp u.req with
    | none => refuse s u completed none
    | some ip => (handleUpgrade s u.socket completed (accept config u identity ip)).getD (refuse s u completed none)
  | .rejected err => refuse s u completed err

/-- The heartbeat for one client. -/
def reap (s : State) (c : Nat) : State :=
  match s.made[c]? with
  | none => s
  | some client =>
    if !client.isAlive then removeClient { s with closings := s.closings ++ [(client.ws, .terminate)] } c
    else { s with made := s.made.set c { client with isAlive := false } }

def heartbeat (s : State) : State := s.clients.foldl reap s

def attachWebSocketServer (s : State) (httpServer : Nat) : State :=
  { s with wss := true, servers := s.servers ++ [httpServer], heartbeatTimer := true }

/-- Every `upgrade` listener of the server handles the request. -/
def upgrade (config : Config) (s : State) (httpServer socket : Nat) (req : Request) : State :=
  if (split (req.url.getD "") '?').headD "" ≠ "/ws/events" then s
  else
    let u : Upgrade := ⟨req, socket, validateOrigin req config.wsAllowedOrigins⟩
    { s with upgrades := s.upgrades ++ List.replicate (s.servers.count httpServer) u }

def shutdownWebSocketServer (s : State) (isOpen : Nat → Bool) : State :=
  let told := (s.clients.filterMap (s.made[·]?)).filter fun client => isOpen client.ws
  { s with
    heartbeatTimer := false
    wss := false
    clients := []
    connsByIp := .empty
    closings := s.closings ++ told.map fun client => (client.ws, .close 1001 "Server shutting down") }

/-- A client is named by the place of its object. -/
inductive Act where
  | attachWebSocketServer (httpServer : Nat)
  | upgrade (httpServer socket : Nat) (req : Request)
  | authenticated (k : Nat) (result : Authentication) (completed : Bool)
  | pong (c : Nat)
  | close (c : Nat)
  | error (c : Nat)
  | heartbeat
  | shutdownWebSocketServer (isOpen : Nat → Bool)

def step (config : Config) (s : State) : Act → Option State
  | .attachWebSocketServer httpServer => some (attachWebSocketServer s httpServer)
  | .upgrade httpServer socket req => some (upgrade config s httpServer socket req)
  | .authenticated k result completed => s.upgrades[k]?.map fun u =>
    authenticated config { s with upgrades := s.upgrades.eraseIdx k } u completed result
  | .pong c => s.made[c]?.map fun client => { s with made := s.made.set c { client with isAlive := true } }
  | .close c | .error c => s.made[c]?.map fun _ => removeClient s c
  | .heartbeat => if s.heartbeatTimer then some (heartbeat s) else none
  | .shutdownWebSocketServer isOpen => some (shutdownWebSocketServer s isOpen)

def broadcaster (config : Config) : System State Act where
  initial s := s = initial
  step := step config

/-- The members of `clients` with an ip. -/
def State.members (s : State) (ip : String) : List Nat := Tally.having s.ip ip s.clients

structure Capped (config : Config) (s : State) : Prop where
  nodup : s.clients.Nodup
  made : ∀ c ∈ s.clients, c < s.made.length
  mirrors : Tally.Mirrors s.connsByIp s.ip s.clients
  total : s.clients.length ≤ config.wsMaxConnectionsGlobal
  perIp : ∀ ip, (s.members ip).length ≤ config.wsMaxConnectionsPerIp

namespace Capped

variable {config : Config} {s t : State} {c : Nat}

theorem initial : Capped config initial where
  nodup := List.nodup_nil
  made _ member := by cases member
  mirrors := Tally.mirrors_empty
  total := Nat.zero_le _
  perIp _ := Nat.zero_le _

/-- Everything a step does but registering and removing a client. -/
theorem frame (capped : Capped config s) (clients : t.clients = s.clients) (counts : t.connsByIp = s.connsByIp)
    (ips : t.made.map Client.ip = s.made.map Client.ip) : Capped config t := by
  obtain ⟨nodup, made, mirrors, total, perIp⟩ := capped
  have sameIp : t.ip = s.ip := by
    funext c
    have at_ : (t.made.map Client.ip)[c]? = (s.made.map Client.ip)[c]? := by rw [ips]
    simp only [List.getElem?_map] at at_
    rw [State.ip, at_, State.ip]
  have sameLength : t.made.length = s.made.length := by
    have lengths := congrArg List.length ips
    simpa only [List.length_map] using lengths
  refine ⟨clients ▸ nodup, ?_, ?_, clients ▸ total, ?_⟩
  · rw [clients, sameLength]
    exact made
  · rw [clients, counts, sameIp]
    exact mirrors
  · intro ip
    rw [State.members, clients, sameIp]
    exact perIp ip

theorem removeClient (capped : Capped config s) : Capped config (removeClient s c) := by
  obtain ⟨nodup, made, mirrors, total, perIp⟩ := capped
  unfold EventBroadcaster.removeClient
  by_cases member : c ∈ s.clients
  · rw [if_pos member]
    refine ⟨nodup.erase c, ?_, ?_, ?_, ?_⟩
    · intro d remains
      exact made d (List.mem_of_mem_erase remains)
    · exact mirrors.dec nodup member
    · exact List.length_erase_le.trans total
    · intro ip
      have fewer : (s.clients.erase c).Sublist s.clients := List.erase_sublist
      exact (fewer.filter _).length_le.trans (perIp ip)
  · rw [if_neg member]
    exact ⟨nodup, made, mirrors, total, perIp⟩

theorem connection (capped : Capped config s) (roomGlobal : s.clients.length < config.wsMaxConnectionsGlobal)
    (roomPerIp : (s.connsByIp.get ip).getD 0 < config.wsMaxConnectionsPerIp) :
    Capped config (connection s ws identity ip contractFilter eventTypeFilter) := by
  obtain ⟨nodup, made, mirrors, total, perIp⟩ := capped
  set t := EventBroadcaster.connection s ws identity ip contractFilter eventTypeFilter
  have fresh : s.made.length ∉ s.clients := fun member => (made _ member).ne rfl
  have before : ∀ c ∈ s.clients, t.ip c = s.ip c := by
    intro c member
    have at_ : t.made[c]? = s.made[c]? := List.getElem?_append_left (made c member)
    rw [State.ip, at_, State.ip]
  have new : t.ip s.made.length = ip := by
    have at_ : t.made[s.made.length]? = some ⟨ws, contractFilter, eventTypeFilter, ip, true, identity⟩ :=
      List.getElem?_concat_length
    rw [State.ip, at_]
    rfl
  have counted : Tally.Mirrors t.connsByIp t.ip t.clients := by
    have kept := (mirrors.congr before).inc s.made.length
    rwa [new] at kept
  refine ⟨?_, ?_, counted, ?_, ?_⟩
  · exact List.nodup_append_comm.mp (List.nodup_cons.mpr ⟨fresh, nodup⟩)
  · intro c member
    have length : t.made.length = s.made.length + 1 := List.length_append
    rcases List.mem_append.mp member with old | last
    · exact length ▸ (made c old).trans (Nat.lt_succ_self _)
    · exact length ▸ (List.mem_singleton.mp last).le.trans_lt (Nat.lt_succ_self _)
  · have length : t.clients.length = s.clients.length + 1 := List.length_append
    exact length ▸ roomGlobal
  · intro other
    rw [State.members, ← counted.getD]
    by_cases same : other = ip
    · subst same
      have raised : t.connsByIp.get other = some ((s.connsByIp.get other).getD 0 + 1) := OrderedMap.get_set_self
      rw [raised]
      exact roomPerIp
    · have untouched : t.connsByIp.get other = s.connsByIp.get other := OrderedMap.get_set_ne same
      rw [untouched, mirrors.getD]
      exact perIp other

theorem accept (capped : Capped config s) (u : Upgrade) (identity ip : String) :
    Capped config (accept config u identity ip s) := by
  have refused (code : Nat) (reason : String) : Capped config (rejectUpgradedSocket s u.socket code reason) :=
    capped.frame rfl rfl rfl
  unfold EventBroadcaster.accept
  cases u.originError with
  | some err => exact refused err.code err.reason
  | none =>
    simp only
    split
    · exact refused ..
    · rename_i roomGlobal
      split
      · exact refused ..
      · rename_i roomPerIp
        split
        · exact refused ..
        · exact capped.connection (by omega) (by omega)

theorem handleUpgrade (capped : Capped config s) (callback : State → State)
    (keeps : ∀ {t}, Capped config t → Capped config (callback t))
    (handled : handleUpgrade s socket completed callback = some t) : Capped config t := by
  unfold EventBroadcaster.handleUpgrade at handled
  split at handled
  · contradiction
  · split at handled
    · cases handled
      exact keeps (capped.frame rfl rfl rfl)
    · cases handled
      exact capped

theorem refuse (capped : Capped config s) (u : Upgrade) : Capped config (refuse s u completed err) := by
  unfold EventBroadcaster.refuse
  simp only
  cases handled : EventBroadcaster.handleUpgrade s u.socket completed _ with
  | none => exact capped
  | some t =>
    refine capped.handleUpgrade (t := t) _ ?_ handled
    exact fun capped => capped.frame rfl rfl rfl

theorem authenticated (capped : Capped config s) (u : Upgrade) (result : Authentication) :
    Capped config (authenticated config s u completed result) := by
  cases result with
  | rejected err => exact capped.refuse u
  | resolved identity =>
    simp only [EventBroadcaster.authenticated]
    cases remoteIp u.req with
    | none => exact capped.refuse u
    | some ip =>
      simp only
      cases handled : EventBroadcaster.handleUpgrade s u.socket completed _ with
      | none => exact capped.refuse u
      | some t => exact capped.handleUpgrade _ (fun capped => capped.accept u identity ip) handled

/-- A new value of a client's `isAlive` changes no ip. -/
theorem alive (capped : Capped config s) {client : Client} (found : s.made[c]? = some client) (isAlive : Bool) :
    Capped config { s with made := s.made.set c { client with isAlive := isAlive } } := by
  refine capped.frame rfl rfl ?_
  refine List.ext_getElem? fun d => ?_
  simp only [List.getElem?_map]
  by_cases same : c = d
  · subst same
    rw [List.getElem?_set_self', found]
    rfl
  · rw [List.getElem?_set_ne same]

theorem reap (capped : Capped config s) (c : Nat) : Capped config (reap s c) := by
  unfold EventBroadcaster.reap
  cases found : s.made[c]? with
  | none => exact capped
  | some client =>
    simp only
    split
    · have told : Capped config { s with closings := s.closings ++ [(client.ws, .terminate)] } :=
        capped.frame rfl rfl rfl
      exact told.removeClient
    · exact capped.alive found false

theorem heartbeat (capped : Capped config s) : Capped config (heartbeat s) := by
  have all (cs : List Nat) : ∀ {s}, Capped config s → Capped config (cs.foldl EventBroadcaster.reap s) := by
    induction cs with
    | nil => exact fun capped => capped
    | cons c rest ih => exact fun capped => ih (capped.reap c)
  exact all s.clients capped

theorem step (capped : Capped config s) (stepped : step config s a = some t) : Capped config t := by
  cases a with
  | attachWebSocketServer httpServer =>
    cases stepped
    exact capped.frame rfl rfl rfl
  | upgrade httpServer socket req =>
    cases stepped
    unfold upgrade
    split
    · exact capped
    · exact capped.frame rfl rfl rfl
  | authenticated k result completed =>
    simp only [EventBroadcaster.step, Option.map_eq_some_iff] at stepped
    obtain ⟨u, _, rfl⟩ := stepped
    have taken : Capped config { s with upgrades := s.upgrades.eraseIdx k } := capped.frame rfl rfl rfl
    exact taken.authenticated u result
  | pong c =>
    simp only [EventBroadcaster.step, Option.map_eq_some_iff] at stepped
    obtain ⟨client, found, rfl⟩ := stepped
    exact capped.alive found true
  | close c | error c =>
    simp only [EventBroadcaster.step, Option.map_eq_some_iff] at stepped
    obtain ⟨client, _, rfl⟩ := stepped
    exact capped.removeClient
  | heartbeat =>
    simp only [EventBroadcaster.step, Option.ite_none_right_eq_some, Option.some.injEq] at stepped
    obtain ⟨_, rfl⟩ := stepped
    exact capped.heartbeat
  | shutdownWebSocketServer isOpen =>
    cases stepped
    exact ⟨List.nodup_nil, fun _ member => (List.not_mem_nil member).elim, Tally.mirrors_empty, Nat.zero_le _,
      fun _ => Nat.zero_le _⟩

end Capped

theorem capped_of_reachable (reached : (broadcaster config).Reachable s) : Capped config s := by
  refine reached.invariant ?_ ?_
  · rintro s rfl
    exact Capped.initial
  · intro s a t capped _ stepped
    exact capped.step stepped

theorem connection_caps_hold (config : Config) (s : State) (reached : (broadcaster config).Reachable s) :
    (∀ ip, s.connsByIp.get ip = if s.members ip = [] then none else some (s.members ip).length) ∧
    s.clients.length ≤ config.wsMaxConnectionsGlobal ∧
    ∀ ip, (s.members ip).length ≤ config.wsMaxConnectionsPerIp := by
  have capped := capped_of_reachable reached
  exact ⟨capped.mirrors, capped.total, capped.perIp⟩

def requestFrom (forwarded : String) : Request :=
  ⟨some "/ws/events", some (.one forwarded), none, none, [("contract", "CA")]⟩

/-- Three upgrades, of which the second is authenticated last and finds its ip taken, and a
client that is closed with an error, reaped or neither. -/
def threeUpgrades : List Act :=
  [.attachWebSocketServer 0, .upgrade 0 0 (requestFrom "10.0.0.1, proxy"), .upgrade 0 1 (requestFrom "10.0.0.1"),
    .upgrade 0 2 (requestFrom "10.0.0.2"), .authenticated 0 (.resolved "a") true, .authenticated 1 (.resolved "c") true,
    .authenticated 0 (.resolved "b") true, .error 0, .close 0, .heartbeat]

theorem connection_caps_hold_threeUpgrades : ∃ s, (broadcaster ⟨"", 2, 1, 5⟩).run initial threeUpgrades = some s ∧
    s.clients = [1] ∧ s.closings.map Prod.fst = [1] ∧ s.connsByIp.get "10.0.0.1" = none ∧
    (∀ ip, s.connsByIp.get ip = if s.members ip = [] then none else some (s.members ip).length) ∧
    s.clients.length ≤ 2 ∧ ∀ ip, (s.members ip).length ≤ 1 := by
  refine ⟨_, rfl, by decide, by decide, by decide, ?_⟩
  exact connection_caps_hold ⟨"", 2, 1, 5⟩ _ (reachable_of_run _ initial threeUpgrades rfl rfl)

end Octraban.EventBroadcaster
