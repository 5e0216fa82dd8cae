import Octraban.Core.StableText
import Octraban.Reputation.IdentityLinks

/-! types.ts: the data of an address on a chain, as score.ts reads it from a value of JSON. -/
namespace Octraban.Scoring
open JavaScript StableText

/-- What is not in the repository; `numerals` is `String(number)` of the finite numbers, and of
`localeCompare` only the sign is used. -/
structure Runtime where
  numerals : Numerals
  localeCompare : String → String → Ordering
  parseDate : String → Number
  sha256 : String → String

structure AttestationInput where
  chainId : Scalar
  schemaId : Scalar
  attester : Scalar
  subject : Scalar
  revoked : Scalar
  signature : Scalar
  transactionHash : Scalar
  blockNumber : Scalar

/-- `issuerId` is the id of an issuer that is no text. -/
structure VerifiableCredential where
  context : List String
  id : Scalar
  type : List String
  issuer : Scalar
  issuerId : Scalar
  issuanceDate : String
  subjectId : Scalar
  proofType : Scalar
  created : Scalar
  verificationMethod : Scalar
  proofPurpose : Scalar
  proofValue : Scalar

structure TrustEdgeInput where
  fromAddress : String
  toAddress : String

structure EndorsementInput where
  subject : String

/-- `text` is the stable text of the whole value. -/
structure ChainReputationData where
  text : List Char
  chainId : String
  address : String
  transactionCount : Scalar
  successfulTransactionCount : Scalar
  failedTransactionCount : Scalar
  uniqueContractsInteracted : Scalar
  governanceVotes : Scalar
  governanceWins : Scalar
  firstSeen : Scalar
  lastSeen : Scalar
  attestations : Option (List AttestationInput)
  verifiableCredentials : Option (List VerifiableCredential)
  trustEdges : Option (List TrustEdgeInput)
  endorsements : Option (List EndorsementInput)
  sybilCluster : Scalar
  sybilRisk : Scalar

/-- The text of a field that is declared as a string. -/
def content : Scalar → String
  | .text content => content
  | _ => ""

def field (key : String) (value : Option Json) : Scalar := scalar (get key value)

def list {A : Type} (f : Option Json → A) (value : Option Json) : Option (List A) :=
  (items? value).map (List.map fun item => f (some item))

/-- `Array.isArray(value) ? value : [value]` -/
def oneOrMany (value : Option Json) : List String :=
  (list (fun item => content (scalar item)) value).getD [content (scalar value)]

def readAttestation (value : Option Json) : AttestationInput where
  chainId := field "chainId" value
  schemaId := field "schemaId" value
  attester := field "attester" value
  subject := field "subject" value
  revoked := field "revoked" value
  signature := field "signature" value
  transactionHash := field "transactionHash" value
  blockNumber := field "blockNumber" value

def readCredential (value : Option Json) : VerifiableCredential where
  context := oneOrMany (get "@context" value)
  id := field "id" value
  type := oneOrMany (get "type" value)
  issuer := field "issuer" value
  issuerId := field "id" (get "issuer" value)
  issuanceDate := content (field "issuanceDate" value)
  subjectId := field "id" (get "credentialSubject" value)
  proofType := field "type" (get "proof" value)
  created := field "created" (get "proof" value)
  verificationMethod := field "verificationMethod" (get "proof" value)
  proofPurpose := field "proofPurpose" (get "proof" value)
  proofValue := field "proofValue" (get "proof" value)

def readEdge (value : Option Json) : TrustEdgeInput where
  fromAddress := content (field "from" value)
  toAddress := content (field "to" value)

def readEndorsement (value : Option Json) : EndorsementInput where
  subject := content (field "subject" value)

variable (runtime : Runtime)

/-- The order of the keys of an object. -/
def keyBefore (a b : String) : Bool := (runtime.localeCompare a b).isLE

/-- `value as ChainReputationData` -/
def readChainData (value : Option Json) : ChainReputationData where
  text := valueText runtime.numerals (keyBefore runtime) value
  chainId := content (field "chainId" value)
  address := content (field "address" value)
  transactionCount := field "transactionCount" value
  successfulTransactionCount := field "successfulTransactionCount" value
  failedTransactionCount := field "failedTransactionCount" value
  uniqueContractsInteracted := field "uniqueContractsInteracted" value
  governanceVotes := field "governanceVotes" value
  governanceWins := field "governanceWins" value
  firstSeen := field "firstSeen" value
  lastSeen := field "lastSeen" value
  attestations := list readAttestation (get "attestations" value)
  verifiableCredentials := list readCredential (get "verifiableCredentials" value)
  trustEdges := list readEdge (get "trustEdges" value)
  endorsements := list readEndorsement (get "endorsements" value)
  sybilCluster := field "sybilCluster" value
  sybilRisk := field "sybilRisk" value

def parseChainData (values : List Json) : List ChainReputationData := values.map fun value => readChainData runtime (some value)

variable {runtime} (collation : Std.TransCmp runtime.localeCompare)
include collation

theorem reads_get {A : Type} {f : Option Json → A} (reads : Reads runtime.numerals (keyBefore runtime) f) (key : String) :
    Reads runtime.numerals (keyBefore runtime) fun value => f (get key value) :=
  reads.get (fun _ _ _ => Std.TransCmp.isLE_trans) Sorting.isLE_total key

theorem reads_field (key : String) : Reads runtime.numerals (keyBefore runtime) (field key) := reads_get collation reads_scalar key

omit collation in
theorem reads_oneOrMany : Reads runtime.numerals (keyBefore runtime) oneOrMany := by
  intro v w same
  have texts : Reads runtime.numerals (keyBefore runtime) fun item => content (scalar item) :=
    fun v w same => congrArg content (reads_scalar v w same)
  rw [oneOrMany, oneOrMany, list, list, reads_scalar v w same]
  exact congrArg (Option.getD · _) (texts.items v w same)

theorem reads_readAttestation : Reads runtime.numerals (keyBefore runtime) readAttestation := by
  intro v w same
  have fields (key : String) : field key v = field key w := reads_field collation key v w same
  simp only [readAttestation, fields]

theorem reads_readCredential : Reads runtime.numerals (keyBefore runtime) readCredential := by
  intro v w same
  have fields (key : String) : field key v = field key w := reads_field collation key v w same
  have inner (outer key : String) : field key (get outer v) = field key (get outer w) :=
    reads_get collation (reads_field collation key) outer v w same
  have several (key : String) : oneOrMany (get key v) = oneOrMany (get key w) :=
    reads_get collation reads_oneOrMany key v w same
  simp only [readCredential, fields, inner, several]

theorem reads_readEdge : Reads runtime.numerals (keyBefore runtime) readEdge := by
  intro v w same
  rw [readEdge, readEdge, reads_field collation "from" v w same, reads_field collation "to" v w same]

theorem reads_readEndorsement : Reads runtime.numerals (keyBefore runtime) readEndorsement := by
  intro v w same
  rw [readEndorsement, readEndorsement, reads_field collation "subject" v w same]

/-- The whole item is read off its stable text. -/
theorem reads_readChainData : Reads runtime.numerals (keyBefore runtime) (readChainData runtime) := by
  intro v w same
  have fields (key : String) : field key v = field key w := reads_field collation key v w same
  have lists {A : Type} {f : Option Json → A} (reads : Reads runtime.numerals (keyBefore runtime) f) (key : String) :
      list f (get key v) = list f (get key w) := reads_get collation reads.items key v w same
  rw [readChainData, readChainData, same, lists (reads_readAttestation collation), lists (reads_readCredential collation),
    lists (reads_readEdge collation), lists (reads_readEndorsement collation)]
  simp only [fields]

end Octraban.Scoring
