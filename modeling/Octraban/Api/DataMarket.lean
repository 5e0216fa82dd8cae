import Octraban.Core.Transition
import Octraban.Core.Value

/-! data-market.ts: what archival nodes have at stake, and the challenges that slash it. A request is
a chain of database calls: between any two other requests go on, and any call may fail. Reads ask
the replica, which is the primary as it was at some time. -/
namespace Octraban.DataMarket
open JavaScript

def minStake : ℚ := 100

/-- Escalating slash percentages. -/
def slashRates : List ℚ := [1 / 10, 1 / 4, 1 / 2, 1]

inductive ArchivalNodeStatus where
  | active | inactive | jailed | slashed
  deriving DecidableEq

inductive ChallengeType where
  | randomByteRange | merkleProof | zkProof
  deriving DecidableEq

def ChallengeType.name : ChallengeType → String
  | randomByteRange => "random_byte_range"
  | merkleProof => "merkle_proof"
  | zkProof => "zk_proof"

inductive ChallengeStatus where
  | pending | issued | responded | verified | failed | expired
  deriving DecidableEq

structure ArchivalNode where
  stakedAmount : ℚ
  stakeAsset : String
  reputation : ℚ
  totalChallenges : Nat
  challengesPassed : Nat
  challengesFailed : Nat
  uptime30d : ℚ
  avgResponseTime : Option Int
  slashedAmount : ℚ
  status : ArchivalNodeStatus

structure ArchivalEpoch where
  nodeId : String
  checksum : Option String
  merkleRoot : Option String

structure StorageChallenge where
  epochId : String
  nodeId : String
  challengeType : ChallengeType
  challengeData : Value
  responseData : Value
  status : ChallengeStatus
  attempts : Nat
  proofVerified : Option Bool
  slashed : Bool

structure ArchivalSlash where
  nodeId : String
  challengeId : Nat
  amount : ℚ
  reason : String
  deriving DecidableEq

/-- What the endpoints get from elsewhere. -/
structure Environment where
  epochs : String → Option ArchivalEpoch
  mockData : Bool
  sha256 : String → String
  stringify : Value → String

def computeReputation (uptime30d : ℚ) (challengesPassed totalChallenges : Nat) (avgResponseTime : Option Int)
    (challengesFailed : Nat) : ℚ :=
  let uptimeScore := min uptime30d 100
  let challengeScore : ℚ := if totalChallenges > 0 then challengesPassed / totalChallenges * 100 else 50
  let responseScore : ℚ := avgResponseTime.elim 50 fun time => max 0 (100 - time / 50)
  let integrityScore : ℚ := if challengesFailed = 0 then 100 else max 0 (100 - challengesFailed * 10)
  let communityScore : ℚ := 70
  uptimeScore * (3 / 10) + challengeScore * (1 / 4) + responseScore * (1 / 5) + integrityScore * (3 / 20) +
    communityScore * (1 / 10)

/-- The random numbers of a challenge. -/
structure Drawn where
  offset : Nat
  length : Nat
  merkleIndex : Nat
  publicInputHash : String

def generateChallengeData (type : ChallengeType) (checksum : Option String) (drawn : Drawn) : Value :=
  let number (n : Nat) : Value := .number (.finite n)
  let checksum := checksum.elim .null Value.text
  match type with
  | .merkleProof => .object [("offset", number drawn.offset), ("length", number drawn.length),
      ("merkleIndex", number drawn.merkleIndex), ("checksum", checksum)]
  | .zkProof => .object [("circuit", .text "poseidon_storage_v1"), ("publicInputHash", .text drawn.publicInputHash)]
  | .randomByteRange => .object [("offset", number drawn.offset), ("length", number drawn.length),
      ("checksum", checksum)]

/-- Whether `responseData` has the hash, under `hashField`, of the node's secret, the challenge and what
it has under `field`. -/
def verifyHash (env : Environment) (challengeData responseData : Value) (secret : Option String)
    (field hashField : String) : Bool :=
  match secret with
  | none | some "" => false
  | some secret =>
    let answer := responseData.get field
    if ¬ answer.truthy then false
    else match responseData.get hashField with
      | .text provided => provided = env.sha256 (secret ++ env.stringify challengeData ++ answer.string)
      | _ => false

def verifyMerkleProof (env : Environment) (challengeData responseData : Value) (merkleRoot : Option String) : Bool :=
  verifyHash env challengeData responseData merkleRoot "proof" "computedRoot"

def verifyByteRangeProof (env : Environment) (challengeData responseData : Value) (checksum : Option String) : Bool :=
  verifyHash env challengeData responseData checksum "data" "hash"

def verifyZkProof (env : Environment) (responseData : Value) : Bool :=
  env.mockData && match responseData.get "proof", responseData.get "publicSignals" with
    | .text proof, .null => proof ≠ ""
    | .text proof, publicSignals => publicSignals.isObject ∧ proof ≠ ""
    | _, _ => false

/-- A node is known by its address, which never changes, and a challenge by its number. -/
structure Db where
  nodes : String → Option ArchivalNode
  challenges : List StorageChallenge
  slashes : List ArchivalSlash
  /-- What the writes have done: deposits and withdrawals, whose challenges have been counted and
  settled, and which have been given a final status. -/
  deposits : List (String × ℚ)
  unstakes : List (String × ℚ)
  counted : List (Nat × String)
  settled : List (Nat × String)
  finals : List Nat

inductive Reply where
  | invalid
  | error (status : Nat) (error : String)
  | failed
  | node (node : ArchivalNode)
  | stake (stakedAmount : ℚ) (stakeAsset : String)
  | unstake (remainingStake : ℚ)
  | challenge (challenge : StorageChallenge)
  | settlement (challenge : StorageChallenge) (passed : Bool) (slashAmount : ℚ) (note : Option String)
  | proof (verified : Bool) (verificationMethod : String)

/-- The next database call of a request. -/
inductive Pending where
  | registerCreate (address : String) (stakeAmount : ℚ) (stakeAsset : String)
  | stakeUpdate (address : String) (amount : ℚ) (asset : String)
  | unstakeUpdate (address : String) (amount : ℚ)
  | challengeEpoch (nodeAddress epochId : String) (type : ChallengeType) (drawn : Drawn)
  | challengeCreate (epochId nodeId : String) (type : ChallengeType) (challengeData : Value)
  | challengeCount (id : Nat) (challenge : StorageChallenge)
  | respondUpdate (id : Nat) (responseData : Value)
  | verifySettle (id : Nat) (challenge : StorageChallenge) (node : ArchivalNode) (passed : Bool)
  | slashCreate (slash : ArchivalSlash) (reply : Reply)
  | zkUpdate (id : Nat) (responseData : Value)
  | ended (reply : Reply)

inductive Request where
  | register (address : String) (stakeAmount : ℚ) (stakeAsset : Option String)
  | stake (address : String) (amount : ℚ) (asset : Option String)
  | unstake (address : String) (amount : ℚ)
  | challenge (nodeAddress epochId : String) (type : Option ChallengeType) (drawn : Drawn)
  | respond (id : Nat) (responseData : List (String × Value))
  | verify (id : Nat)
  | zkProof (challengeId : Nat) (proof : String) (publicSignals : List (String × Value))

def notFound (what : String) : Pending := .ended (.error 404 (what ++ " not found"))

def slashAmount (node : ArchivalNode) (passed : Bool) : ℚ :=
  if passed then 0
  else node.stakedAmount * slashRates.getD (min node.challengesFailed (slashRates.length - 1)) 0

/-- The checks of a request and its first read. -/
def start (env : Environment) (replica : Db) : Request → Pending
  | .register address stakeAmount stakeAsset =>
    if address = "" ∨ stakeAmount < minStake then .ended .invalid
    else match replica.nodes address with
      | some _ => .ended (.error 409 "Node already registered")
      | none => .registerCreate address stakeAmount (stakeAsset.getD "XLM")
  | .stake address amount asset =>
    if address = "" ∨ amount ≤ 0 then .ended .invalid
    else match replica.nodes address with
      | none => notFound "Node"
      | some node =>
        if node.status = .jailed ∨ node.status = .slashed then
          .ended (.error 403 "Cannot stake while node is jailed or slashed")
        else .stakeUpdate address amount (asset.getD "XLM")
  | .unstake address amount =>
    if address = "" ∨ amount ≤ 0 then .ended .invalid
    else match replica.nodes address with
      | none => notFound "Node"
      | some node =>
        if node.stakedAmount < amount then .ended (.error 400 "Insufficient staked balance")
        else .unstakeUpdate address amount
  | .challenge nodeAddress epochId type drawn =>
    if nodeAddress = "" ∨ epochId = "" then .ended .invalid
    else match replica.nodes nodeAddress with
      | none => notFound "Node"
      | some node =>
        if node.status ≠ .active then .ended (.error 400 "Node is not active")
        else .challengeEpoch nodeAddress epochId (type.getD .randomByteRange) drawn
  | .respond id responseData =>
    match replica.challenges[id]? with
    | none => notFound "Challenge"
    | some challenge =>
      if challenge.status ≠ .issued ∧ challenge.status ≠ .pending then
        .ended (.error 400 "Challenge is not awaiting response")
      else .respondUpdate id (.object responseData)
  | .verify id =>
    match replica.challenges[id]? with
    | none => notFound "Challenge"
    | some challenge =>
      if challenge.status ≠ .responded then .ended (.error 400 "Challenge has not been responded to")
      else match env.epochs challenge.epochId, replica.nodes challenge.nodeId with
        | some epoch, some node =>
          let cd := challenge.challengeData.orElse (.object [])
          let rd := challenge.responseData.orElse (.object [])
          let passed := match challenge.challengeType with
            | .merkleProof => verifyMerkleProof env cd rd epoch.merkleRoot
            | .zkProof => verifyZkProof env rd
            | .randomByteRange => verifyByteRangeProof env cd rd epoch.checksum
          .verifySettle id challenge node passed
        -- the relations are foreign keys
        | _, _ => .ended .failed
  | .zkProof challengeId proof publicSignals =>
    if proof = "" then .ended .invalid
    else match replica.challenges[challengeId]? with
      | none => notFound "Challenge"
      | some challenge =>
        if challenge.challengeType ≠ .zkProof then .ended (.error 400 "Challenge is not a ZK-proof challenge")
        else .zkUpdate challengeId (.object [("proof", .text proof), ("publicSignals", .object publicSignals)])

/-- The second read of /challenge. -/
def readEpoch (env : Environment) (nodeAddress epochId : String) (type : ChallengeType) (drawn : Drawn) : Pending :=
  match env.epochs epochId with
  | none => notFound "Epoch"
  | some epoch =>
    if epoch.nodeId ≠ nodeAddress then .ended (.error 400 "Epoch not assigned to this node")
    else .challengeCreate epochId nodeAddress type (generateChallengeData type epoch.checksum drawn)

namespace Db

def setNode (db : Db) (address : String) (node : ArchivalNode) : Db :=
  { db with nodes := Function.update db.nodes address (some node) }

/-- UPDATE by the address, which must be there. -/
def updateNode (db : Db) (address : String) (update : ArchivalNode → ArchivalNode) (log : Db → Db)
    (next : ArchivalNode → Pending) : Db × Pending :=
  match db.nodes address with
  | none => (db, .ended .failed)
  | some node => (log (db.setNode address (update node)), next (update node))

def updateChallenge (db : Db) (id : Nat) (update : StorageChallenge → StorageChallenge) (log : Db → Db)
    (next : StorageChallenge → Pending) : Db × Pending :=
  match db.challenges[id]? with
  | none => (db, .ended .failed)
  | some challenge => (log { db with challenges := db.challenges.set id (update challenge) }, next (update challenge))

def newNode (stakeAmount : ℚ) (stakeAsset : String) : ArchivalNode where
  stakedAmount := stakeAmount
  stakeAsset
  reputation := 0
  totalChallenges := 0
  challengesPassed := 0
  challengesFailed := 0
  uptime30d := 0
  avgResponseTime := none
  slashedAmount := 0
  status := .active

def register (db : Db) (address : String) (stakeAmount : ℚ) (stakeAsset : String) : Db × Pending :=
  match db.nodes address with
  -- the address is unique
  | some _ => (db, .ended .failed)
  | none =>
    let node := newNode stakeAmount stakeAsset
    ({ db.setNode address node with deposits := db.deposits ++ [(address, stakeAmount)] }, .ended (.node node))

def stake (db : Db) (address : String) (amount : ℚ) (asset : String) : Db × Pending :=
  db.updateNode address (fun node => { node with stakedAmount := node.stakedAmount + amount, stakeAsset := asset })
    (fun db => { db with deposits := db.deposits ++ [(address, amount)] })
    fun updated => .ended (.stake updated.stakedAmount updated.stakeAsset)

def unstake (db : Db) (address : String) (amount : ℚ) : Db × Pending :=
  db.updateNode address (fun node => { node with stakedAmount := node.stakedAmount - amount })
    (fun db => { db with unstakes := db.unstakes ++ [(address, amount)] })
    fun updated => .ended (.unstake updated.stakedAmount)

def createChallenge (db : Db) (epochId nodeId : String) (type : ChallengeType) (challengeData : Value) :
    Db × Pending :=
  let challenge : StorageChallenge := {
    epochId, nodeId, challengeType := type, challengeData, responseData := .null, status := .issued, attempts := 0
    proofVerified := none, slashed := false }
  ({ db with challenges := db.challenges ++ [challenge] }, .challengeCount db.challenges.length challenge)

def countChallenge (db : Db) (id : Nat) (challenge : StorageChallenge) : Db × Pending :=
  db.updateNode challenge.nodeId (fun node => { node with totalChallenges := node.totalChallenges + 1 })
    (fun db => { db with counted := db.counted ++ [(id, challenge.nodeId)] })
    fun _ => .ended (.challenge challenge)

def respond (db : Db) (id : Nat) (responseData : Value) : Db × Pending :=
  db.updateChallenge id (fun challenge => { challenge with
      responseData, status := .responded, attempts := challenge.attempts + 1 })
    (fun db => db) fun updated => .ended (.challenge updated)

/-- The node after the verdict. All but the increments is computed from the node as it was read. -/
def settledNode (read : ArchivalNode) (passed : Bool) (node : ArchivalNode) : ArchivalNode :=
  if passed then { node with
    challengesPassed := node.challengesPassed + 1
    reputation := computeReputation read.uptime30d (read.challengesPassed + 1) read.totalChallenges
      read.avgResponseTime read.challengesFailed }
  else { node with
    challengesFailed := node.challengesFailed + 1
    stakedAmount := node.stakedAmount - slashAmount read passed
    slashedAmount := node.slashedAmount + slashAmount read passed
    status := if read.challengesFailed + 1 ≥ 3 then .jailed else read.status
    reputation := max 0 (computeReputation read.uptime30d read.challengesPassed read.totalChallenges
      read.avgResponseTime (read.challengesFailed + 1)) }

/-- The transaction of /verify: the challenge and its node, or neither. -/
def settle (env : Environment) (db : Db) (id : Nat) (challenge : StorageChallenge) (read : ArchivalNode)
    (passed : Bool) : Db × Pending :=
  match db.challenges[id]?, db.nodes challenge.nodeId with
  | some stored, some node =>
    let updatedChallenge := { stored with
      status := if passed then .verified else .failed, proofVerified := some passed, slashed := !passed }
    let note := if challenge.challengeType = .zkProof ∧ ¬ env.mockData then
      some "ZK-proof verification is not implemented outside MOCK_DATA mode; the challenge was treated as failed."
      else none
    let reply := .settlement updatedChallenge passed (slashAmount read passed) note
    let t := { db.setNode challenge.nodeId (settledNode read passed node) with
      challenges := db.challenges.set id updatedChallenge
      settled := db.settled ++ [(id, challenge.nodeId)]
      finals := db.finals ++ [id] }
    (t, if ¬ passed ∧ slashAmount read passed > 0 then
        .slashCreate ⟨challenge.nodeId, id, slashAmount read passed,
          "Failed " ++ challenge.challengeType.name ++ " challenge"⟩ reply
      else .ended reply)
  | _, _ => (db, .ended .failed)

def recordSlash (db : Db) (slash : ArchivalSlash) (reply : Reply) : Db × Pending :=
  ({ db with slashes := db.slashes ++ [slash] }, .ended reply)

def proveZk (env : Environment) (db : Db) (id : Nat) (responseData : Value) : Db × Pending :=
  let verified := verifyZkProof env responseData
  db.updateChallenge id (fun challenge => { challenge with
      responseData, status := if verified then .verified else .failed, proofVerified := some verified })
    (fun db => { db with finals := db.finals ++ [id] })
    fun _ => .ended (.proof verified (if env.mockData then "structural-stub" else "unavailable"))

/-- A call that is answered. -/
def perform (env : Environment) (db : Db) : Pending → Db × Pending
  | .registerCreate address stakeAmount stakeAsset => db.register address stakeAmount stakeAsset
  | .stakeUpdate address amount asset => db.stake address amount asset
  | .unstakeUpdate address amount => db.unstake address amount
  | .challengeEpoch nodeAddress epochId type drawn => (db, readEpoch env nodeAddress epochId type drawn)
  | .challengeCreate epochId nodeId type challengeData => db.createChallenge epochId nodeId type challengeData
  | .challengeCount id challenge => db.countChallenge id challenge
  | .respondUpdate id responseData => db.respond id responseData
  | .verifySettle id challenge node passed => db.settle env id challenge node passed
  | .slashCreate slash reply => db.recordSlash slash reply
  | .zkUpdate id responseData => db.proveZk env id responseData
  | .ended reply => (db, .ended reply)

def initial : Db := ⟨fun _ => none, [], [], [], [], [], [], []⟩

end Db

structure State where
  primary : Db
  replica : Db
  calls : List Pending

inductive Act where
  | request (request : Request)
  | resume (call : Nat) (answered : Bool)
  | replicate

def State.goto (s : State) (call : Nat) (moved : Db × Pending) : State :=
  { s with primary := moved.1, calls := s.calls.set call moved.2 }

def step (env : Environment) (s : State) : Act → Option State
  | .request request => some { s with calls := s.calls ++ [start env s.replica request] }
  | .resume call answered =>
    match s.calls[call]? with
    | none | some (.ended _) => none
    | some pending =>
      some (s.goto call (if answered then s.primary.perform env pending else (s.primary, .ended .failed)))
  | .replicate => some { s with replica := s.primary }

def system (env : Environment) : Transition.System State Act where
  initial s := s = ⟨.initial, .initial, []⟩
  step := step env

end Octraban.DataMarket
