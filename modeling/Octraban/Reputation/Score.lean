import Octraban.Reputation.ScoreInput

/-! score.ts: the score of an address, its proof and the leaderboard. -/
namespace Octraban.Scoring
open JavaScript Reputation StableText

structure ReputationBreakdownItem where
  signal : String
  category : String
  points : Number
  maxPoints : Number
  evidence : String

structure ChainScore where
  chainId : String
  address : String
  score : Number
  breakdown : List ReputationBreakdownItem

structure SybilAssessment where
  address : String
  isSuspicious : Bool
  risk : Number
  confidence : Number
  reasons : List String
  cluster : Scalar

structure ReputationProof where
  algorithmVersion : String
  address : String
  linkedAddresses : List String
  chainIds : List String
  score : Number
  inputHash : String
  breakdownHash : String
  badgeHash : String

structure ScoreResult where
  address : String
  score : Number
  rankCategory : String
  activeChains : List String
  linkedAddresses : List String
  chainScores : List ChainScore
  breakdown : List ReputationBreakdownItem
  sybil : SybilAssessment
  proof : ReputationProof

structure LeaderboardEntry where
  address : String
  score : Number
  activeChains : Nat
  linkedAddresses : List String
  sybilRisk : Number

/-! ### Numbers -/

/-- `Math.sqrt`: the root cut off after 600 binary places, and half a place more where it goes on,
rounds as the root does. -/
def sqrt : Number → Number
  | .finite x =>
    if x < 0 then .nan
    else
      let square := ⌊x * 4 ^ 600⌋.toNat
      let root := square.sqrt
      roundRat ((root + if root * root = square then 0 else 1 / 2) / 2 ^ 600)
  | .infinite false => .infinite false
  | _ => .nan

/-- The nearest decimal, of two the larger one, with at least one digit before the point. -/
def fixed (places : Nat) (x : ℚ) : String :=
  let digits := (decimal ⌊|x| * 10 ^ places + 1 / 2⌋.toNat).leftpad (places + 1) '0'
  let whole := digits.take (digits.length - places)
  let point := if places = 0 then [] else '.' :: digits.drop (digits.length - places)
  String.ofList ((if x < 0 then ['-'] else []) ++ whole ++ point)

def truthy : Scalar → Bool
  | .undefined | .null => false
  | .boolean value => value
  | .number x => x ≠ 0
  | .text content => content ≠ ""
  | .compound => true

def toNumber (value : Scalar) (fallback : Number) : Number :=
  match value with
  | .number x => .finite x
  | .text content =>
    if trim content ≠ "" then
      let numeric := number content
      if numeric.isFinite then numeric else fallback
    else fallback
  | _ => fallback

def clamp (value low high : Number) : Number := high.min (low.max value)

def round (value : Number) : Number := (value.mul (.finite 100)).round.div (.finite 100)

/-- `addends.reduce((total, x) => total + x, 0)` -/
def sum (addends : List Number) : Number := addends.foldl Number.add (.finite 0)

/-- `Math.max(...values)` -/
def greatest (values : List Number) : Number := values.foldl Number.max (.infinite true)

def count (n : Nat) : Number := .finite n

/-- `items.slice(0, limit)` -/
def slice {A : Type} (limit : Number) (items : List A) : List A :=
  match limit with
  | .nan => []
  | .infinite negative => if negative then [] else items
  | .finite x =>
    let stop := if x < 0 then -⌊-x⌋ else ⌊x⌋
    if stop < 0 then items.take (items.length - stop.natAbs) else items.take stop.toNat

section
variable (runtime : Runtime)

/-- `String(number)` -/
def numeral : Number → String
  | .finite x => String.ofList (runtime.numerals.numeral x)
  | .infinite negative => if negative then "-Infinity" else "Infinity"
  | .nan => "NaN"

def toFixed (places : Nat) : Number → String
  | .finite x => if |x| < 10 ^ 21 then fixed places x else numeral runtime (.finite x)
  | x => numeral runtime x

/-! ### What counts -/

def isAttestationVerifiable (attestation : AttestationInput) : Bool :=
  if truthy attestation.revoked then false
  else if !truthy attestation.chainId || !truthy attestation.schemaId || !truthy attestation.attester ||
      !truthy attestation.subject then false
  else if truthy attestation.transactionHash && attestation.blockNumber ≠ .undefined &&
      attestation.blockNumber ≠ .null then true
  else truthy attestation.signature

/-- `text.includes(part)` -/
def includes (text part : String) : Bool := text.toList.tails.any part.toList.isPrefixOf

def isVerifiableCredential (credential : VerifiableCredential) : Bool :=
  let issuer := match credential.issuer with
    | .text name => .text name
    | _ => credential.issuerId
  credential.context.any (includes · "w3.org/ns/credentials") &&
    credential.type.contains "VerifiableCredential" &&
    truthy credential.id &&
    truthy issuer &&
    runtime.parseDate credential.issuanceDate ≠ .nan &&
    truthy credential.subjectId &&
    truthy credential.proofType &&
    truthy credential.created &&
    truthy credential.verificationMethod &&
    truthy credential.proofPurpose &&
    truthy credential.proofValue

def countValidAttestations (chainData : ChainReputationData) : Nat :=
  ((chainData.attestations.getD []).filter isAttestationVerifiable).length

def countValidCredentials (chainData : ChainReputationData) : Nat :=
  ((chainData.verifiableCredentials.getD []).filter (isVerifiableCredential runtime)).length

/-- The order of `sort()`, by code units. -/
def unitsBefore (a b : String) : Bool := utf16 a ≤ utf16 b

def getActiveChains (chainData : List ChainReputationData) : List String :=
  (Ordered.ofList (chainData.map ChainReputationData.chainId)).mergeSort unitsBefore

/-- By chain, then by address. -/
def compareItems (a b : ChainReputationData) : Ordering :=
  (runtime.localeCompare a.chainId b.chainId).then
    (runtime.localeCompare (canonicalAddress a.address) (canonicalAddress b.address))

def sortItems (chainData : List ChainReputationData) : List ChainReputationData :=
  chainData.mergeSort fun a b => (compareItems runtime a b).isLE

/-- One round of the loop of `groupByAddress`. -/
def group (wanted : List String) (grouped : OrderedMap String (List ChainReputationData)) (item : ChainReputationData) :
    OrderedMap String (List ChainReputationData) :=
  let address := canonicalAddress item.address
  if wanted ≠ [] ∧ address ∉ wanted then grouped
  else grouped.update address [] (· ++ [item])

def groupByAddress (chainData : List ChainReputationData) (addresses : List String) :
    OrderedMap String (List ChainReputationData) :=
  let wanted := Ordered.ofList (addresses.map canonicalAddress)
  (sortItems runtime chainData).foldl (group wanted) OrderedMap.empty

structure TrustMetrics where
  incoming : Nat
  outgoing : Nat
  endorsements : Nat

def calculateTrustMetrics (chainData : List ChainReputationData) (address : String) : TrustMetrics :=
  let canonical := canonicalAddress address
  let edges := chainData.flatMap fun item => item.trustEdges.getD []
  { incoming := (edges.filter fun edge => canonicalAddress edge.toAddress = canonical).length
    outgoing := (edges.filter fun edge => canonicalAddress edge.fromAddress = canonical).length
    endorsements := ((chainData.flatMap fun item => item.endorsements.getD []).filter fun item =>
      canonicalAddress item.subject = canonical).length }

def daysBetween (start stop : String) : Number :=
  let startMs := runtime.parseDate start
  let endMs := runtime.parseDate stop
  if startMs = .nan ∨ endMs = .nan then .finite 0
  else (Number.finite 0).max ((endMs.sub startMs).div (.finite 86400000))

def calculateLongevityPoints (chainData : ChainReputationData) : Number :=
  if truthy chainData.firstSeen && truthy chainData.lastSeen then
    let days := daysBetween runtime (content chainData.firstSeen) (content chainData.lastSeen)
    clamp ((sqrt (days.max (.finite 0))).mul (.finite 3)) (.finite 0) (.finite 15)
  else
    let txCount := toNumber chainData.transactionCount (.finite 0)
    if (Number.finite 0).lt txCount then .finite 3 else .finite 0

def sumPoints (breakdown : List ReputationBreakdownItem) : Number := sum (breakdown.map ReputationBreakdownItem.points)

def scoreSingleChain (chainData : ChainReputationData) : ChainScore :=
  let address := canonicalAddress chainData.address
  let zero := Number.finite 0
  let successfulTx := zero.max
    (toNumber chainData.successfulTransactionCount (toNumber chainData.transactionCount zero))
  let failedTx := zero.max (toNumber chainData.failedTransactionCount zero)
  let totalTx := successfulTx.add failedTx
  let uniqueContracts := zero.max (toNumber chainData.uniqueContractsInteracted zero)
  let governanceVotes := zero.max (toNumber chainData.governanceVotes zero)
  let governanceWins := zero.max (toNumber chainData.governanceWins zero)
  let validAttestations := countValidAttestations chainData
  let validCredentials := countValidCredentials runtime chainData
  let trustMetrics := calculateTrustMetrics [chainData] address
  let endorsements := ((chainData.endorsements.getD []).filter fun item => canonicalAddress item.subject = address).length
  let activity := clamp ((successfulTx.mul (.finite 2)).add (uniqueContracts.mul (.finite 3))) zero (.finite 25)
  let longevity := calculateLongevityPoints runtime chainData
  let governance := clamp ((governanceVotes.mul (.finite 5)).add (governanceWins.mul (.finite 8))) zero (.finite 15)
  let attestations := clamp ((count validAttestations).mul (.finite 8)) zero (.finite 20)
  let credentials := clamp ((count validCredentials).mul (.finite 8)) zero (.finite 15)
  let trust := clamp (((count (trustMetrics.incoming + trustMetrics.outgoing)).mul (.finite 2)).add
    ((count endorsements).mul (.finite 3))) zero (.finite 15)
  let breakdown : List ReputationBreakdownItem := [
    { signal := "on_chain_activity", category := "activity", points := round activity, maxPoints := .finite 25
      evidence := numeral runtime successfulTx ++ " successful transactions across " ++ numeral runtime uniqueContracts ++
        " contracts" },
    { signal := "account_longevity", category := "activity", points := round longevity, maxPoints := .finite 15
      evidence :=
        if truthy chainData.firstSeen && truthy chainData.lastSeen then
          "active for " ++
            toFixed runtime 1 (daysBetween runtime (content chainData.firstSeen) (content chainData.lastSeen)) ++ " days"
        else numeral runtime totalTx ++ " indexed transactions" },
    { signal := "governance_participation", category := "governance", points := round governance, maxPoints := .finite 15
      evidence := numeral runtime governanceVotes ++ " votes and " ++ numeral runtime governanceWins ++
        " successful outcomes" },
    { signal := "on_chain_attestations", category := "attestations", points := round attestations, maxPoints := .finite 20
      evidence := numeral runtime (count validAttestations) ++ " verifiable attestations" },
    { signal := "verifiable_credentials", category := "credentials", points := round credentials, maxPoints := .finite 15
      evidence := numeral runtime (count validCredentials) ++ " W3C-compatible credentials" },
    { signal := "trust_graph", category := "trust", points := round trust, maxPoints := .finite 15
      evidence := numeral runtime (count trustMetrics.incoming) ++ " incoming, " ++
        numeral runtime (count trustMetrics.outgoing) ++ " outgoing, " ++ numeral runtime (count endorsements) ++
        " endorsements" }]
  let failedRatio := failedTx.div totalTx
  let failedPenalty := clamp (failedRatio.mul (.finite 12)) zero (.finite 12)
  let failures : List ReputationBreakdownItem :=
    if zero.lt totalTx && zero.lt failedPenalty then [
      { signal := "failed_transaction_ratio", category := "risk", points := (round failedPenalty).neg, maxPoints := .finite 12
        evidence := toFixed runtime 1 (failedRatio.mul (.finite 100)) ++ "% failed transactions" }]
    else []
  let sybilRisk := clamp (toNumber chainData.sybilRisk (if truthy chainData.sybilCluster then roundRat (7 / 10) else zero))
    zero (.finite 1)
  let sybil : List ReputationBreakdownItem :=
    if (Number.finite (1 / 2)).le sybilRisk then [
      { signal := "sybil_resistance", category := "risk", points := .finite (-15), maxPoints := .finite 15
        evidence :=
          if truthy chainData.sybilCluster then "shared cluster " ++ content chainData.sybilCluster
          else "sybil risk " ++ toFixed runtime 0 (sybilRisk.mul (.finite 100)) ++ "%" }]
    else []
  let parts := breakdown ++ (failures ++ sybil)
  { chainId := chainData.chainId
    address
    score := round (clamp (sumPoints parts) zero (.finite 100))
    breakdown := parts }

/-! ### Suspicion -/

def calculateSybilRiskFromSignals (chainData : List ChainReputationData) : Number :=
  let zero := Number.finite 0
  let txCount := sum (chainData.map fun item =>
    (toNumber item.successfulTransactionCount zero).max (toNumber item.transactionCount zero))
  let validAttestations := (chainData.map countValidAttestations).sum
  let validCredentials := (chainData.map (countValidCredentials runtime)).sum
  let uniqueContracts := sum (chainData.map fun item => toNumber item.uniqueContractsInteracted zero)
  let few := 2 ≤ chainData.length && txCount.lt (.finite 5)
  let several := 3 ≤ chainData.length && txCount.lt (.finite 8)
  let unattested := validAttestations = 0 && validCredentials = 0 && txCount.lt (.finite 10)
  let narrow := uniqueContracts.lt (.finite 2) && zero.lt txCount
  let raise (condition : Bool) (step : ℚ) (risk : Number) : Number := if condition then risk.add (roundRat step) else risk
  clamp (raise narrow (15 / 100) (raise unattested (2 / 10) (raise several (2 / 10) (raise few (25 / 100)
    (roundRat (15 / 100)))))) zero (.finite 1)

def assessSybilRisk (address : String) (chainData : List ChainReputationData) : SybilAssessment :=
  let canonical := canonicalAddress address
  let items := (chainData.filter fun item => canonicalAddress item.address = canonical).mergeSort fun a b =>
    (runtime.localeCompare a.chainId b.chainId).isLE
  let explicitRisk := (items.map fun item => toNumber item.sybilRisk (.finite (-1))).filter (Number.finite 0).le
  let risk := if explicitRisk ≠ [] then greatest explicitRisk else calculateSybilRiskFromSignals runtime items
  let half := Number.finite (1 / 2)
  let reasons :=
    (if items.any fun item => truthy item.sybilCluster then ["address belongs to a shared sybil cluster"] else []) ++
    (if explicitRisk ≠ [] ∧ half.le (greatest explicitRisk) then ["external sybil signal exceeds threshold"] else []) ++
    (if (sum (items.map fun item => toNumber item.transactionCount (.finite 0))).lt (.finite 3) ∧ 2 ≤ items.length then
      ["low activity across multiple chains"] else []) ++
    (if items.any fun item => 0 < (item.attestations.getD []).length && countValidAttestations item = 0 then
      ["attestations lack verifiable on-chain evidence"] else [])
  let reasons := if reasons = [] ∧ half.le risk then ["behavioral signals exceed sybil threshold"] else reasons
  { address := canonical
    isSuspicious := half.le risk
    risk := round (clamp risk (.finite 0) (.finite 1))
    confidence := round (clamp ((roundRat (55 / 100)).add ((count reasons.length).mul (roundRat (1 / 10))))
      (roundRat (55 / 100)) (roundRat (95 / 100)))
    reasons
    cluster := ((items.find? fun item => truthy item.sybilCluster).map ChainReputationData.sybilCluster).getD .undefined }

/-! ### The score and its proof -/

def evidenceParts (text : String) : List String := ((text.splitOn "; ").map trim).filter (· ≠ "")

def mergeEvidence (existing next : String) : String :=
  "; ".intercalate (Ordered.ofList ([existing, next].flatMap evidenceParts))

/-- `JSON.stringify` writes null for what is no finite number. -/
def jsonNumber : Number → Json
  | .finite x => .number x
  | _ => .null

def breakdownJson (item : ReputationBreakdownItem) : Json :=
  .object [("signal", some (.text item.signal)), ("category", some (.text item.category)),
    ("points", some (jsonNumber item.points)), ("maxPoints", some (jsonNumber item.maxPoints)),
    ("evidence", some (.text item.evidence))]

/-- The hash of an array whose elements have these stable texts. -/
def deterministicHash (elements : List (List Char)) : String := runtime.sha256 (String.ofList (arrayText elements))

def buildReputationProof (address : String) (linkedAddresses : List String) (chainData : List ChainReputationData)
    (breakdown : List ReputationBreakdownItem) (score : Number) : ReputationProof :=
  let input := sortItems runtime chainData
  { algorithmVersion := "reputation-oracle-v1"
    address := canonicalAddress address
    linkedAddresses := (linkedAddresses.map canonicalAddress).mergeSort unitsBefore
    chainIds := getActiveChains input
    score := round score
    inputHash := deterministicHash runtime (input.map ChainReputationData.text)
    breakdownHash := deterministicHash runtime
      (breakdown.map fun item => stableText runtime.numerals (keyBefore runtime) (breakdownJson item))
    badgeHash := deterministicHash runtime [] }

abbrev Signals := OrderedMap String ReputationBreakdownItem

/-- One round of the loop over the parts with points. -/
def addPositive (signals : Signals) (part : ReputationBreakdownItem) : Signals :=
  match signals.get part.signal with
  | none => signals.set part.signal part
  | some existing => signals.set part.signal
    { existing with
      points := round (existing.points.add part.points)
      maxPoints := (Number.finite 100).min (existing.maxPoints.add part.maxPoints)
      evidence := mergeEvidence existing.evidence part.evidence }

/-- One round of the loop over the penalties. -/
def addNegative (signals : Signals) (part : ReputationBreakdownItem) : Signals :=
  match signals.get part.signal with
  | none => signals.set part.signal part
  | some existing => signals.set part.signal
    { existing with
      points := round (existing.points.add part.points)
      evidence := mergeEvidence existing.evidence part.evidence }

def buildScoreResult (address : String) (chainData : List ChainReputationData) (linkedAddresses : List String) : ScoreResult :=
  let canonical := canonicalAddress address
  let normalizedLinks := (Ordered.ofList (linkedAddresses.map canonicalAddress)).mergeSort unitsBefore
  let chainScores := (chainData.map (scoreSingleChain runtime)).mergeSort fun a b =>
    (runtime.localeCompare a.chainId b.chainId).isLE
  let activeChains := getActiveChains chainData
  let parts := chainScores.flatMap ChainScore.breakdown
  let positive := parts.filter fun part => (Number.finite 0).le part.points
  let negative := parts.filter fun part => part.points.lt (.finite 0)
  let signals := negative.foldl addNegative (positive.foldl addPositive OrderedMap.empty)
  let crossChainPoints := if 3 ≤ activeChains.length then 10 else if activeChains.length = 2 then 4 else 0
  let signals := if 0 < crossChainPoints then
      signals.set "cross_chain_presence"
        { signal := "cross_chain_presence", category := "cross_chain", points := count crossChainPoints
          maxPoints := .finite 10, evidence := "active on " ++ ", ".intercalate activeChains }
    else signals
  let signals := if normalizedLinks ≠ [] then
      signals.set "verified_identity_links"
        { signal := "verified_identity_links", category := "identity", points := .finite 3, maxPoints := .finite 3
          evidence := numeral runtime (count normalizedLinks.length) ++ " verified linked addresses" }
    else signals
  let sybil := assessSybilRisk runtime canonical chainData
  let signals := if sybil.isSuspicious then
      signals.set "sybil_resistance"
        { signal := "sybil_resistance", category := "risk", points := .finite (-15), maxPoints := .finite 15
          evidence := "; ".intercalate sybil.reasons }
    else signals
  let sortedBreakdown := (signals.entries.map Prod.snd).mergeSort fun a b =>
    (runtime.localeCompare a.signal b.signal).isLE
  let score := clamp (sumPoints sortedBreakdown) (.finite 0) (.finite 100)
  { address := canonical
    score := round score
    rankCategory := "overall"
    activeChains
    linkedAddresses := normalizedLinks
    chainScores
    breakdown := sortedBreakdown
    sybil
    proof := buildReputationProof runtime canonical normalizedLinks chainData sortedBreakdown score }

def computeReputationScore (address : String) (chainData : List ChainReputationData) : ScoreResult :=
  let canonical := canonicalAddress address
  let grouped := groupByAddress runtime chainData [canonical]
  let items := (grouped.get canonical).getD []
  buildScoreResult runtime canonical items []

def leaderboardEntry (group : String × List ChainReputationData) : LeaderboardEntry :=
  let result := buildScoreResult runtime group.1 group.2 []
  { address := group.1
    score := result.score
    activeChains := result.activeChains.length
    linkedAddresses := result.linkedAddresses
    sybilRisk := result.sybil.risk }

def inCategory (category : String) (entry : LeaderboardEntry) : Bool :=
  if category = "sybil_resistant" then entry.sybilRisk.lt (.finite (1 / 2))
  else if category = "cross_chain" then 2 ≤ entry.activeChains
  else true

/-- The higher score first, then by address. -/
def entryBefore (a b : LeaderboardEntry) : Bool :=
  let byScore := b.score.sub a.score
  if byScore ≠ .finite 0 ∧ byScore ≠ .nan then byScore.le (.finite 0)
  else (runtime.localeCompare a.address b.address).isLE

/-- The entries with their ranks. -/
def createLeaderboard (chainData : List ChainReputationData) (category : String) (limit : Number) :
    List (Nat × LeaderboardEntry) :=
  let grouped := groupByAddress runtime chainData []
  let entries := grouped.entries.map (leaderboardEntry runtime)
  let filtered := (entries.filter (inCategory category)).mergeSort (entryBefore runtime)
  (slice limit filtered).zipIdx.map fun (entry, index) => (index + 1, entry)

end

end Octraban.Scoring
