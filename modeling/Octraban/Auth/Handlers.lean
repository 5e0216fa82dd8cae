import Octraban.Core.Interleaving
import Octraban.Auth.World

/-! The handlers of auth.ts, authMultisig.ts and authOAuth2.ts, cut at their
awaits: each cache or database call is one step, run when its request is resumed. -/
namespace Octraban.Auth
open Interleaving

/-- `Date.prototype.toISOString`: proleptic Gregorian date and UTC time. -/
def toISOString (ms : Nat) : String :=
  let digits (width n : Nat) := String.ofList (List.replicate (width - (toString n).length) '0') ++ toString n
  let z := ms / 86400000 + 719468
  let dayOfEra := z % 146097
  let yearOfEra := (dayOfEra - dayOfEra / 1460 + dayOfEra / 36524 - dayOfEra / 146096) / 365
  let dayOfYear := dayOfEra - (365 * yearOfEra + yearOfEra / 4 - yearOfEra / 100)
  let shifted := (5 * dayOfYear + 2) / 153
  let month := if shifted < 10 then shifted + 3 else shifted - 9
  let year := yearOfEra + z / 146097 * 400 + (if month ≤ 2 then 1 else 0)
  digits 4 year ++ "-" ++ digits 2 month ++ "-" ++ digits 2 (dayOfYear - (153 * shifted + 2) / 5 + 1) ++
    "T" ++ digits 2 (ms / 3600000 % 24) ++ ":" ++ digits 2 (ms / 60000 % 60) ++ ":" ++
    digits 2 (ms / 1000 % 60) ++ "." ++ digits 3 (ms % 1000) ++ "Z"

def buildChallengeMessage (now nonce : Nat) (appId domain : String) : String :=
  "Sign this message to authenticate with Octraban: " ++ domain ++ " " ++ toISOString now ++
    " [nonce: " ++ toString nonce ++ "] [appId: " ++ appId ++ "]"

def flowChallenge (multisigAddress : String) (nonce flowId : Nat) : String :=
  "Authenticate multi-sig wallet " ++ multisigAddress ++ " [nonce: " ++ toString nonce ++
    "] [flow: flow_" ++ toString flowId ++ "]"

/-- What the handlers call that is not in the repository. `verify` is
`Keypair.fromPublicKey(address).verify(message, signature)`, `none` when it throws;
`less` decides `sum < threshold` when JavaScript has to coerce. -/
structure Outside where
  verify : String → String → String → Option Bool
  less : List Weight → Weight → Bool

structure ChallengeBody where
  ip : String
  address : String
  network : String
  appId : String
  deriving DecidableEq

structure VerifyBody where
  address : String
  challengeId : Nat
  signature : String
  deriving DecidableEq

structure InitiateBody where
  multisigAddress : String
  signers : List (String × Weight)
  threshold : Weight
  appId : String
  deriving DecidableEq

structure ContributeBody where
  authFlowId : Nat
  signerAddress : String
  signature : String
  deriving DecidableEq

structure TokenBody where
  grantType : String
  code : Nat
  clientId : String
  clientSecret : String
  redirectUri : String
  deriving DecidableEq

/-- Which login ends in a session, with the record it was granted on. -/
inductive Login where
  | verify (challengeId : Nat) (challenge : ChallengeData)
  | complete (authFlowId : Nat) (flow : MultiSigFlow)
  | token (code : OAuthCode)
  deriving DecidableEq

def Login.credential : Login → Credential
  | .verify challengeId _ => .challenge challengeId
  | .complete authFlowId _ => .flow authFlowId
  | .token code => .code code.code

structure Grant where
  login : Login
  sub : String
  userId : Nat
  sessionId : Nat
  appId : String
  deriving DecidableEq

/-- What stands behind `requireAuth` on a route that writes one of the tables. -/
inductive Action where
  | access
  | logout
  | logoutAll
  | deleteMe
  | deleteSession (sessionId : Nat)
  | wallets (walletAddress : String) (wallet : MultiSigWallet)
  | authorize (clientId redirectUri : String)
  deriving DecidableEq

/-- The call a request waits for. -/
inductive Pending where
  | rateGet (body : ChallengeBody)
  | rateSet (body : ChallengeBody) (count : Nat)
  | challengeSet (data : ChallengeData)
  | verifyGet (body : VerifyBody)
  | incrementGet (body : VerifyBody) (ch : ChallengeData)
  | incrementSet (body : VerifyBody) (ch data : ChallengeData)
  | dropGet (challengeId : Nat)
  | dropDelete (challengeId : Nat)
  | consumeGet (challengeId : Nat) (ch : ChallengeData)
  | consumeDelete (challengeId : Nat) (ch : ChallengeData)
  | findUser (login : Login) (address : String)
  | createUser (login : Login) (address : String)
  | updateUser (login : Login) (user : WalletUser)
  | sign (grant : Grant)
  | createSession (grant : Grant) (tokens : TokenPair)
  | refreshFind (refreshToken : Nat)
  | refreshSign (refreshToken : Nat) (session : AuthSession)
  | refreshUpdate (refreshToken : Nat) (session : AuthSession) (tokens : TokenPair)
  | verifyToken (token : Jwt) (action : Action)
  | lookup (token : Jwt) (action : Action)
  | act (action : Action) (sessionId userId : Nat)
  | deleteFound (sessionId : Nat)
  | deactivateUser (userId : Nat)
  | authorizeCreate (code : OAuthCode)
  | flowSet (flow : MultiSigFlow)
  | flowGet (flowId : Nat)
  | contributeGet (body : ContributeBody)
  | contributeSet (body : ContributeBody) (flow : MultiSigFlow)
  | completeGet (authFlowId : Nat)
  | completeSet (authFlowId : Nat) (flow : MultiSigFlow)
  | tokenFindApp (body : TokenBody)
  | tokenFindCode (body : TokenBody)
  | tokenMarkUsed (code : OAuthCode)
  | tokenFindUser (code : OAuthCode)
  deriving DecidableEq

variable {P : Type*} [DecidableEq P]

/-- The world after a segment, and the call the request waits for next. -/
abbrev Segment (P : Type*) := World P × Option Pending

/-- `createChallenge` up to its cacheSet. -/
def createChallenge (w : World P) (body : ChallengeBody) : Segment P :=
  let nonce := w.draws
  let challengeId := w.draws + 1
  let message := buildChallengeMessage w.now nonce body.appId "explorer.stellar.org"
  (w.draw.draw, some (.challengeSet ⟨challengeId, body.address, body.network, body.appId, nonce,
    message, w.now + CHALLENGE_TTL * 1000, 0⟩))

def checkChallengeRateLimit (w : World P) (p : P) (body : ChallengeBody) : Segment P :=
  let (count, cell) := (w.attempts body.ip).cacheGet p w.now
  let w := w.setAttempts body.ip cell
  let count := count.getD 0
  if 5 ≤ count then (w, none) else (w, some (.rateSet body (count + 1)))

variable (outside : Outside)

/-- The signature check of `/verify`; an exception is answered as a mismatch. -/
def checkSignature (w : World P) (body : VerifyBody) (ch : ChallengeData) : Segment P :=
  let w := w.record fun h => { h with checks := body.challengeId :: h.checks }
  match outside.verify body.address ch.message body.signature with
  | some true =>
    (w.record fun h => { h with accepted := (.challenge body.challengeId, w.now) :: h.accepted },
      some (.consumeGet body.challengeId ch))
  | some false | none => (w, none)

def verifyStart (w : World P) (p : P) (body : VerifyBody) : Segment P :=
  let (ch, w) := w.getChallenge p body.challengeId
  match ch with
  | none => (w, none)
  | some ch => (w, if ch.address ≠ body.address then none else some (.incrementGet body ch))

/-- `incrementAttempts` up to its cacheSet. A record that has gone counts as 0. -/
def incrementAttempts (w : World P) (p : P) (body : VerifyBody) (ch : ChallengeData) : Segment P :=
  let (data, w) := w.getChallenge p body.challengeId
  match data with
  | none => checkSignature outside w body ch
  | some data =>
    (w, some (.incrementSet body ch { data with attempts := data.attempts + 1 }))

def countAttempt (w : World P) (p : P) (body : VerifyBody) (ch data : ChallengeData) : Segment P :=
  let w := w.storeChallenge p body.challengeId data
  if 3 < data.attempts then (w, some (.dropGet body.challengeId))
  else checkSignature outside w body ch

/-- The session id is drawn once the user is known; then the tokens are signed. -/
def grantTo (w : World P) (login : Login) (user : WalletUser) (sub appId : String) : Segment P :=
  (w.draw, some (.sign ⟨login, sub, user.userId, w.draws, appId⟩))

def Login.proceed (w : World P) (user : WalletUser) : Login → Segment P
  | .verify id ch => grantTo w (.verify id ch) user ch.address ch.appId
  | .complete id flow => grantTo w (.complete id flow) user flow.multisigAddress flow.appId
  | .token code => grantTo w (.token code) user user.address code.clientId

def findUser (w : World P) (login : Login) (address : String) : Segment P :=
  match w.findUser address with
  | none => (w, some (.createUser login address))
  | some user =>
    match login with
    | .verify .. => (w, some (.updateUser login user))
    | _ => login.proceed w user

/-- The address is unique; a concurrent insert makes this one throw. -/
def createUser (w : World P) (login : Login) (address : String) : Segment P :=
  match w.findUser address with
  | some _ => (w, none)
  | none =>
    let user : WalletUser := ⟨w.draws, address, true⟩
    login.proceed { w.draw with users := user :: w.users } user

/-- The tokens of a pair and the claims they share. -/
def issueTokens (w : World P) (sub : String) (userId sessionId : Nat) (appId : String) :
    TokenPair × World P :=
  let token : Jwt := ⟨sub, userId, sessionId, appId, w.draws, w.now / 1000 + ACCESS_TOKEN_TTL⟩
  (⟨token, w.draws + 1⟩, { w.draw.draw with tokens := token :: w.tokens })

def sign (w : World P) (grant : Grant) : Segment P :=
  let (tokens, w) := issueTokens w grant.sub grant.userId grant.sessionId grant.appId
  (w, some (.createSession grant tokens))

/-- The id is the primary key. -/
def createSession (w : World P) (grant : Grant) (tokens : TokenPair) : Segment P :=
  if w.sessions.any fun row => row.sessionId = grant.sessionId then (w, none)
  else
    let expiresAt := w.now + REFRESH_TOKEN_TTL * 1000
    let row : AuthSession := ⟨grant.sessionId, grant.userId, tokens.token, tokens.refreshToken,
      grant.appId, true, expiresAt⟩
    let issue : Issue := ⟨grant.login.credential, grant.sub, w.wallets grant.sub⟩
    (({ w with sessions := row :: w.sessions }).record fun h =>
      { h with issues := issue :: h.issues, sessions := .opened row.sessionId expiresAt :: h.sessions },
      none)

def refreshFind (w : World P) (refreshToken : Nat) : Segment P :=
  match w.sessions.find? fun row => row.refreshTokenHash = refreshToken && row.isActive with
  | none => (w, none)
  | some session =>
    (w, if session.expiresAt < w.now then none else some (.refreshSign refreshToken session))

def refreshSign (w : World P) (refreshToken : Nat) (session : AuthSession) : Segment P :=
  match w.userById session.userId with
  | none => (w, none)
  | some user =>
    let (tokens, w) := issueTokens w user.address user.userId session.sessionId session.appId
    (w, some (.refreshUpdate refreshToken session tokens))

/-- The pair is returned after the row has its new hashes. -/
def refreshUpdate (w : World P) (refreshToken : Nat) (session : AuthSession) (tokens : TokenPair) :
    Segment P :=
  let rotate (row : AuthSession) : AuthSession :=
    if row.sessionId = session.sessionId then
      { row with tokenHash := tokens.token, refreshTokenHash := tokens.refreshToken }
    else row
  (({ w with sessions := w.sessions.map rotate }).record fun h =>
    { h with rotations := refreshToken :: h.rotations }, none)

/-- A token verifies when it was issued and has not expired. -/
def verifyToken (w : World P) (token : Jwt) (action : Action) : Segment P :=
  (w, if token ∈ w.tokens ∧ w.now / 1000 < token.exp then some (.lookup token action) else none)

def passes (token : Jwt) (row : AuthSession) : Bool :=
  row.sessionId = token.sessionId && row.tokenHash = token && row.isActive

/-- The session lookup of `requireAuth`. -/
def lookup (w : World P) (token : Jwt) (action : Action) : Segment P :=
  match w.sessions.find? (passes token) with
  | none => (w, none)
  | some session =>
    if (w.userById session.userId).any WalletUser.isActive then
      (w.record fun h => { h with sessions := .through session.sessionId w.now :: h.sessions },
        some (.act action session.sessionId session.userId))
    else (w, none)

def act (w : World P) (sessionId userId : Nat) : Action → Segment P
  | .access => (w, none)
  | .logout => (w.closeSessions fun row => row.sessionId = sessionId, none)
  | .logoutAll => (w.closeSessions fun row => row.userId = userId && row.isActive, none)
  | .deleteMe => (w.closeSessions fun row => row.userId = userId, some (.deactivateUser userId))
  | .deleteSession chosen =>
    (w, if w.sessions.any fun row => row.sessionId = chosen && row.userId = userId then
      some (.deleteFound chosen) else none)
  | .wallets walletAddress wallet =>
    if walletAddress = "" ∨ wallet.threshold = 0 then (w, none)
    else ({ w with wallets := Function.update w.wallets walletAddress (some wallet) }, none)
  | .authorize clientId redirectUri =>
    match w.apps.find? fun app => app.clientId = clientId && app.isActive with
    | none => (w, none)
    | some app =>
      if redirectUri ∈ app.redirectUris then
        (w.draw, some (.authorizeCreate ⟨w.draws, clientId, userId, redirectUri, false,
          w.now + 600000⟩))
      else (w, none)

def deactivateUser (w : World P) (userId : Nat) : Segment P :=
  let deactivate (user : WalletUser) : WalletUser :=
    if user.userId = userId then { user with isActive := false } else user
  ({ w with users := w.users.map deactivate }, none)

/-- `/initiate` up to its cacheSet. -/
def initiate (w : World P) (body : InitiateBody) : Segment P :=
  let nonce := w.draws
  let flowId := w.draws + 1
  let signers := body.signers.map fun (address, weight) => ⟨address, weight, false, none⟩
  (w.draw.draw, some (.flowSet ⟨flowId, body.multisigAddress,
    flowChallenge body.multisigAddress nonce flowId, signers, body.threshold,
    w.now + FLOW_TTL * 1000, false, body.appId⟩))

/-- `signer.signed = true; signer.signature = signature` on the signer found. -/
def markSigned (signerAddress signature : String) : List SignerStatus → List SignerStatus
  | [] => []
  | s :: rest =>
    if s.address = signerAddress then { s with signed := true, signature := some signature } :: rest
    else s :: markSigned signerAddress signature rest

def contribute (w : World P) (p : P) (body : ContributeBody) : Segment P :=
  let (flow, w) := w.getFlow p body.authFlowId
  match flow with
  | none => (w, none)
  | some flow =>
    if flow.completed then (w, none)
    else
      match flow.signers.find? fun s => s.address = body.signerAddress with
      | none => (w, none)
      | some signer =>
        if signer.signed then (w, none)
        else
          match outside.verify body.signerAddress flow.challenge body.signature with
          | some true => (w, some (.contributeSet body
              { flow with signers := markSigned body.signerAddress body.signature flow.signers }))
          | some false | none => (w, none)

def contributeSet (w : World P) (p : P) (body : ContributeBody) (flow : MultiSigFlow) : Segment P :=
  ((w.storeFlow p body.authFlowId flow FLOW_TTL).record fun h =>
    { h with acknowledged := (body.authFlowId, body.signerAddress) :: h.acknowledged }, none)

def integers (weights : List Weight) : Option (List Int) :=
  weights.mapM fun weight => match weight with
    | .integer n => some n
    | .other _ => none

/-- `signedWeight < flow.threshold`. -/
def thresholdNotMet (flow : MultiSigFlow) : Bool :=
  let weights := (flow.signers.filter SignerStatus.signed).map SignerStatus.weight
  match integers weights, flow.threshold with
  | some numbers, .integer threshold => numbers.sum < threshold
  | _, _ => outside.less weights flow.threshold

def complete (w : World P) (p : P) (authFlowId : Nat) : Segment P :=
  let (flow, w) := w.getFlow p authFlowId
  match flow with
  | none => (w, none)
  | some flow =>
    if flow.completed then (w, none)
    else if thresholdNotMet outside flow then (w, none)
    else
      (w.record fun h => { h with accepted := (.flow authFlowId, w.now) :: h.accepted },
        some (.completeSet authFlowId { flow with completed := true }))

def tokenFindApp (w : World P) (body : TokenBody) : Segment P :=
  match w.apps.find? fun app => app.clientId = body.clientId && app.isActive with
  | none => (w, none)
  | some app => (w, if body.clientSecret ≠ app.clientSecret then none else some (.tokenFindCode body))

def tokenFindCode (w : World P) (body : TokenBody) : Segment P :=
  match w.codes.find? fun row => row.code = body.code && row.clientId = body.clientId && !row.used with
  | none => (w, none)
  | some code =>
    (w, if code.expiresAt < w.now ∨ code.redirectUri ≠ body.redirectUri then none
      else some (.tokenMarkUsed code))

def tokenMarkUsed (w : World P) (code : OAuthCode) : Segment P :=
  let mark (row : OAuthCode) : OAuthCode :=
    if row.code = code.code then { row with used := true } else row
  ({ w with codes := w.codes.map mark }, some (.tokenFindUser code))

def tokenFindUser (w : World P) (code : OAuthCode) : Segment P :=
  match w.userById code.userId with
  | none => (w, none)
  | some user => (Login.token code).proceed w user

/-- One step of a request in process `p`. -/
def resumePending (w : World P) (p : P) : Pending → Segment P
  | .rateGet body => checkChallengeRateLimit w p body
  | .rateSet body count =>
    createChallenge (w.setAttempts body.ip ((w.attempts body.ip).cacheSet p w.now count 60)) body
  | .challengeSet data =>
    ((w.storeChallenge p data.challengeId data).record fun h =>
      { h with
        challenged := (data.address, data.message) :: h.challenged
        created := (.challenge data.challengeId, data.expiresAt) :: h.created }, none)
  | .verifyGet body => verifyStart w p body
  | .incrementGet body ch => incrementAttempts outside w p body ch
  | .incrementSet body ch data => countAttempt outside w p body ch data
  | .dropGet id =>
    let (data, w) := w.getChallenge p id
    (w, data.map fun _ => .dropDelete id)
  | .dropDelete id => (w.deleteChallenge p id, none)
  | .consumeGet id ch =>
    let (data, w) := w.getChallenge p id
    (w, some (if data.isSome then .consumeDelete id ch else .findUser (.verify id ch) ch.address))
  | .consumeDelete id ch => (w.deleteChallenge p id, some (.findUser (.verify id ch) ch.address))
  | .findUser login address => findUser w login address
  | .createUser login address => createUser w login address
  | .updateUser login user => login.proceed w user
  | .sign grant => sign w grant
  | .createSession grant tokens => createSession w grant tokens
  | .refreshFind refreshToken => refreshFind w refreshToken
  | .refreshSign refreshToken session => refreshSign w refreshToken session
  | .refreshUpdate refreshToken session tokens => refreshUpdate w refreshToken session tokens
  | .verifyToken token action => verifyToken w token action
  | .lookup token action => lookup w token action
  | .act action sessionId userId => act w sessionId userId action
  | .deleteFound sessionId => (w.closeSessions fun row => row.sessionId = sessionId, none)
  | .deactivateUser userId => deactivateUser w userId
  | .authorizeCreate code => ({ w with codes := code :: w.codes }, none)
  | .flowSet flow =>
    ((w.storeFlow p flow.flowId flow FLOW_TTL).record fun h =>
      { h with
        initiated := (flow.multisigAddress, flow.challenge) :: h.initiated
        created := (.flow flow.flowId, flow.expiresAt) :: h.created }, none)
  | .flowGet id => ((w.getFlow p id).2, none)
  | .contributeGet body => contribute outside w p body
  | .contributeSet body flow => contributeSet w p body flow
  | .completeGet id => complete outside w p id
  | .completeSet id flow =>
    (w.storeFlow p id flow 60, some (.findUser (.complete id flow) flow.multisigAddress))
  | .tokenFindApp body => tokenFindApp w body
  | .tokenFindCode body => tokenFindCode w body
  | .tokenMarkUsed code => tokenMarkUsed w code
  | .tokenFindUser code => tokenFindUser w code

inductive Route where
  | challenge (body : ChallengeBody)
  | verify (body : VerifyBody)
  | refresh (refreshToken : Nat)
  | requireAuth (token : Jwt) (action : Action)
  | initiate (body : InitiateBody)
  | contribute (body : ContributeBody)
  | complete (authFlowId : Nat)
  | flows (flowId : Nat)
  | token (body : TokenBody)

/-- The random value a request presents. Nobody can present one that is yet to be drawn. -/
def Route.presented : Route → Option Nat
  | .verify body => some body.challengeId
  | .refresh refreshToken => some refreshToken
  | .contribute body => some body.authFlowId
  | .complete authFlowId => some authFlowId
  | .flows flowId => some flowId
  | .token body => some body.code
  | .challenge _ | .requireAuth .. | .initiate _ => none

/-- The checks of a handler before its first await. -/
def beginRoute (w : World P) : Route → Segment P
  | .challenge body => (w, if body.address = "" then none else some (.rateGet body))
  | .verify body =>
    (w, if body.address = "" ∨ body.signature = "" then none else some (.verifyGet body))
  | .refresh refreshToken => (w, some (.refreshFind refreshToken))
  | .requireAuth jwt action => (w, some (.verifyToken jwt action))
  | .initiate body =>
    if body.multisigAddress = "" ∨ !body.threshold.truthy then (w, none) else initiate w body
  | .contribute body =>
    (w, if body.signerAddress = "" ∨ body.signature = "" then none else some (.contributeGet body))
  | .complete authFlowId => (w, some (.completeGet authFlowId))
  | .flows flowId => (w, some (.flowGet flowId))
  | .token body =>
    (w, if body.grantType ≠ "authorization_code" then none else some (.tokenFindApp body))

structure Request (P : Type*) where
  self : P
  route : Route

structure Call (P : Type*) where
  self : P
  pending : Pending

/-- Time passes, or a process evicts an entry of its local store. -/
inductive Event (P : Type*) where
  | elapse (ms : Nat)
  | evictChallenge (p : P) (challengeId : Nat)
  | evictFlow (p : P) (flowId : Nat)
  | evictAttempts (p : P) (ip : String)

def Segment.at (p : P) (segment : Segment P) : World P × Option (Call P) :=
  (segment.1, segment.2.map fun pending => ⟨p, pending⟩)

def start (w : World P) (request : Request P) : Option (World P × Option (Call P)) :=
  if request.route.presented.all fun value => value < w.draws then
    some (Segment.at request.self (beginRoute w request.route))
  else none

def resume (w : World P) (call : Call P) : Unit → Option (World P × Option (Call P))
  | () => some (Segment.at call.self (resumePending outside w call.self call.pending))

def environment (w : World P) : Event P → Option (World P)
  | .elapse ms => some { w with now := w.now + ms }
  | .evictChallenge p id => some (w.setChallenge id ((w.challenges id).evict p))
  | .evictFlow p id => some (w.setFlow id ((w.flows id).evict p))
  | .evictAttempts p ip => some (w.setAttempts ip ((w.attempts ip).evict p))

def program : Program (World P) (Call P) (Request P) Unit (Event P) where
  start := start
  resume := resume outside
  environment := environment

def History.empty : History := ⟨[], [], [], [], [], [], [], [], []⟩

/-- Nothing has been granted yet; OAuth apps may be registered. -/
def World.initial (now : Nat) (apps : List OAuthApp) : World P :=
  ⟨now, 0, fun _ => .empty, fun _ => .empty, fun _ => .empty, [], [], fun _ => none, apps, [], [],
    .empty⟩

def system : Transition.System (Config (World P) (Call P)) (Act (Request P) Unit (Event P)) :=
  (program outside).system fun w => ∃ now apps, w = World.initial now apps

/-- A run of a single process. -/
abbrev Run := List (Act (Request Unit) Unit (Event Unit))

def idle : Config (World Unit) (Call Unit) := ⟨.initial 0 [], fun _ => none⟩

/-- A request runs alone for `steps` calls. -/
def alone (k : Nat) (route : Route) (steps : Nat) : Run :=
  .start k ⟨(), route⟩ :: List.replicate steps (.resume k ())

end Octraban.Auth
