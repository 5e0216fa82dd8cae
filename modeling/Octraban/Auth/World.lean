import Octraban.Cache
import Mathlib.Algebra.BigOperators.Group.List.Basic
import Mathlib.Algebra.Order.Group.Int
import Mathlib.Algebra.Ring.Int.Defs

/-! State of the authentication API: the cache records and database rows its
handlers share, and a history of what they have granted. A random value is
modelled by the number of values drawn before it, so draws never repeat; a hash
stands for the value it was made from. -/
namespace Octraban.Auth

/-- A JSON number that is an integer, or any other JSON value. -/
inductive Weight where
  | integer (n : Int)
  | other (json : String)
  deriving DecidableEq, Repr

def Weight.truthy : Weight → Bool
  | .integer n => n ≠ 0
  | .other json => json ∉ ["null", "false", "\"\""]

structure ChallengeData where
  challengeId : Nat
  address : String
  network : String
  appId : String
  nonce : Nat
  message : String
  expiresAt : Nat
  attempts : Nat
  deriving DecidableEq, Repr

structure SignerStatus where
  address : String
  weight : Weight
  signed : Bool
  signature : Option String
  deriving DecidableEq, Repr

structure MultiSigFlow where
  flowId : Nat
  multisigAddress : String
  challenge : String
  signers : List SignerStatus
  threshold : Weight
  expiresAt : Nat
  completed : Bool
  appId : String
  deriving DecidableEq, Repr

/-- The claims `requireAuth` reads and `exp` in seconds. -/
structure Jwt where
  sub : String
  userId : Nat
  sessionId : Nat
  appId : String
  jti : Nat
  exp : Nat
  deriving DecidableEq, Repr

structure TokenPair where
  token : Jwt
  refreshToken : Nat
  deriving DecidableEq, Repr

structure WalletUser where
  userId : Nat
  address : String
  isActive : Bool
  deriving DecidableEq, Repr

structure AuthSession where
  sessionId : Nat
  userId : Nat
  tokenHash : Jwt
  refreshTokenHash : Nat
  appId : String
  isActive : Bool
  expiresAt : Nat
  deriving DecidableEq, Repr

/-- A row of `multisig_wallets`: the signers are JSON, the threshold an INT column. -/
structure MultiSigWallet where
  signers : List (String × Weight)
  threshold : Int
  deriving DecidableEq, Repr

structure OAuthApp where
  clientId : String
  clientSecret : String
  redirectUris : List String
  isActive : Bool
  deriving DecidableEq, Repr

structure OAuthCode where
  code : Nat
  clientId : String
  userId : Nat
  redirectUri : String
  used : Bool
  expiresAt : Nat
  deriving DecidableEq, Repr

inductive Credential where
  | challenge (challengeId : Nat)
  | flow (flowId : Nat)
  | code (code : Nat)
  | refreshToken (token : Nat)
  deriving DecidableEq, Repr

/-- An authSession was created; `wallet` is the row of `sub` at that moment. -/
structure Issue where
  credential : Credential
  sub : String
  wallet : Option MultiSigWallet

/-- What happened to sessions, by session id. -/
inductive SessionEvent where
  | opened (sessionId expiresAt : Nat)
  | closed (sessionId : Nat)
  | through (sessionId now : Nat)
  deriving DecidableEq

/-- Nothing the handlers do depends on it. Every list has its newest entry first;
`created` has the expiry a record was created with, `accepted` the time it was. -/
structure History where
  challenged : List (String × String)
  initiated : List (String × String)
  created : List (Credential × Nat)
  checks : List Nat
  accepted : List (Credential × Nat)
  acknowledged : List (Nat × String)
  issues : List Issue
  rotations : List Nat
  sessions : List SessionEvent

structure World (P : Type*) where
  now : Nat
  draws : Nat
  challenges : Nat → Cell P ChallengeData
  attempts : String → Cell P Nat
  flows : Nat → Cell P MultiSigFlow
  users : List WalletUser
  sessions : List AuthSession
  wallets : String → Option MultiSigWallet
  apps : List OAuthApp
  codes : List OAuthCode
  tokens : List Jwt
  history : History

def CHALLENGE_TTL : Nat := 300
def FLOW_TTL : Nat := 600
def ACCESS_TOKEN_TTL : Nat := 24 * 3600
def REFRESH_TOKEN_TTL : Nat := 30 * 24 * 3600

namespace World
variable {P : Type*} [DecidableEq P]

def draw (w : World P) : World P := { w with draws := w.draws + 1 }

def setChallenge (w : World P) (challengeId : Nat) (cell : Cell P ChallengeData) : World P :=
  { w with challenges := Function.update w.challenges challengeId cell }

def setFlow (w : World P) (flowId : Nat) (cell : Cell P MultiSigFlow) : World P :=
  { w with flows := Function.update w.flows flowId cell }

def setAttempts (w : World P) (ip : String) (cell : Cell P Nat) : World P :=
  { w with attempts := Function.update w.attempts ip cell }

def getChallenge (w : World P) (p : P) (challengeId : Nat) : Option ChallengeData × World P :=
  let (data, cell) := (w.challenges challengeId).cacheGet p w.now
  (data, w.setChallenge challengeId cell)

def getFlow (w : World P) (p : P) (flowId : Nat) : Option MultiSigFlow × World P :=
  let (flow, cell) := (w.flows flowId).cacheGet p w.now
  (flow, w.setFlow flowId cell)

def storeChallenge (w : World P) (p : P) (challengeId : Nat) (data : ChallengeData) : World P :=
  w.setChallenge challengeId ((w.challenges challengeId).cacheSet p w.now data CHALLENGE_TTL)

def deleteChallenge (w : World P) (p : P) (challengeId : Nat) : World P :=
  w.setChallenge challengeId ((w.challenges challengeId).cacheDelete p)

def storeFlow (w : World P) (p : P) (flowId : Nat) (flow : MultiSigFlow) (ttlSeconds : Nat) :
    World P :=
  w.setFlow flowId ((w.flows flowId).cacheSet p w.now flow ttlSeconds)

def record (w : World P) (history : History → History) : World P :=
  { w with history := history w.history }

def findUser (w : World P) (address : String) : Option WalletUser :=
  w.users.find? fun user => user.address = address

def userById (w : World P) (userId : Nat) : Option WalletUser :=
  w.users.find? fun user => user.userId = userId

/-- Rows of `auth_sessions` matching `chosen` become inactive. -/
def closeSessions (w : World P) (chosen : AuthSession → Bool) : World P :=
  { w with
    sessions := w.sessions.map fun row => if chosen row then { row with isActive := false } else row
    history := { w.history with
      sessions := ((w.sessions.filter chosen).map fun row => .closed row.sessionId) ++
        w.history.sessions } }

end World
end Octraban.Auth
