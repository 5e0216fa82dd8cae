import Octraban.Core.BigInt
import Octraban.Core.Transition
import Octraban.Core.Upsert

/-! governance.ts: proposals, votes and delegates kept event by event. The tallies of a proposal
are texts, read and written back around each vote. -/
namespace Octraban.Governance
open JavaScript Sql

/-- A field of decoded event data. -/
inductive Value where
  | undefined
  | null
  | text (text : String)
  | number (number : Number)
  | bigint (n : Int)
  | boolean (value : Bool)
  | array (items : List Value)
  | object

abbrev Decoded := List (String × Value)

def Decoded.get (decoded : Decoded) (field : String) : Value :=
  ((decoded.find? fun entry => entry.1 = field).map Prod.snd).getD .undefined

/-- `a ?? b` -/
def Value.orElse : Value → Value → Value
  | undefined, b | null, b => b
  | a, _ => a

def Value.truthy : Value → Bool
  | undefined | null => false
  | text content => content ≠ ""
  | number x => x ≠ .nan ∧ x ≠ .finite 0
  | bigint n => n ≠ 0
  | boolean value => value
  | array _ | object => true

/-- The words looked for are ASCII, and so is what this changes. -/
def toLowerCase (text : String) : String := text.toLower

def includes (text word : String) : Bool := word.toList <:+: text.toList

structure Event where
  contractId : String
  ledgerSequence : Nat
  eventType : Option String
  topicSymbol : Option String
  decoded : Decoded
  transactionHash : String

def governanceEventTopics : List String :=
  ["proposal_created", "proposal_created_event", "vote_cast", "vote_cast_event", "proposal_executed",
    "proposal_cancelled", "proposal_queued", "proposal_defeated", "delegate_changed", "delegated",
    "delegate_votes_changed", "proposal_succeeded", "proposal_failed"]

def proposalStatusByTopic (symbol : String) : Option String :=
  match symbol with
  | "proposal_created" => some "active"
  | "proposal_created_event" => some "active"
  | "proposal_queued" => some "queued"
  | "proposal_executed" => some "executed"
  | "proposal_cancelled" => some "cancelled"
  | "proposal_defeated" => some "defeated"
  | "proposal_failed" => some "defeated"
  | "proposal_succeeded" => some "queued"
  | _ => none

def normalizeString : Value → Option String
  | .text text => if trim text ≠ "" then some (trim text) else none
  | .number x => some x.text
  | .bigint n => some (bigIntText n)
  | _ => none

/-- The first of some fields that is a string or a number. -/
def Decoded.string (decoded : Decoded) (fields : List String) : Option String :=
  fields.findSome? fun field => normalizeString (decoded.get field)

inductive Support where
  | for_ | against | abstain | unknown
  deriving DecidableEq

def supportOf (raw : String) : Support :=
  if raw ∈ ["for", "yes", "aye", "1", "true", "supported"] then .for_
  else if raw ∈ ["against", "no", "nay", "0", "false", "opposed"] then .against
  else if raw ∈ ["abstain", "abstention", "2", "neutral"] then .abstain
  else .unknown

def normalizeSupport : Value → Support
  | .text text => supportOf (toLowerCase text)
  | .number x => supportOf x.text
  | _ => .unknown

def parseProposalId (decoded : Decoded) : Option String :=
  decoded.string ["proposalId", "proposal_id", "id", "proposal", "proposal_index"]

structure ProposalFields where
  proposalId : Option String
  proposer : String
  title : Option String
  description : Option String
  targets : Value
  startBlock : Option Number
  endBlock : Option Number
  quorum : Option String

def parseBlock : Value → Option Number
  | .number x => some x
  | .text text => some (number text)
  | _ => none

def parseProposalFields (decoded : Decoded) : ProposalFields where
  proposalId := parseProposalId decoded
  proposer := (decoded.string ["proposer", "initiator", "creator"]).getD "unknown"
  title := decoded.string ["title", "name"]
  description := decoded.string ["description", "body"]
  targets := (decoded.get "targets").orElse ((decoded.get "actions").orElse ((decoded.get "targets_list").orElse
    ((decoded.get "targets").orElse .undefined)))
  startBlock := parseBlock (decoded.get "startBlock")
  endBlock := parseBlock (decoded.get "endBlock")
  quorum := decoded.string ["quorum", "quorumThreshold", "quorum_required"]

structure VoteFields where
  proposalId : Option String
  voter : String
  support : Support
  weight : String
  reason : Option String
  delegatee : Option String

def parseVoteFields (decoded : Decoded) : VoteFields where
  proposalId := parseProposalId decoded
  voter := (decoded.string ["voter", "voterAddress", "caller"]).getD "unknown"
  support := normalizeSupport ((decoded.get "support").orElse ((decoded.get "supported").orElse
    ((decoded.get "choice").orElse (decoded.get "side"))))
  weight := (decoded.string ["weight", "votingPower", "votes"]).getD "0"
  reason := decoded.string ["reason", "comment", "note"]
  delegatee := decoded.string ["delegatee", "delegate", "delegate_address"]

def parseTargets (value : Value) : Option (List Value) :=
  match value with
  | .array items => some items
  | .text text => some ((((split text ',').map trim).filter fun item => item ≠ "").map .text)
  | value => if value.truthy then some [value] else none

/-- Arithmetic of BigInts, of doubles where a text is none, and else no change; `a` may be null. -/
def integerStrings (onBigInt : Int → Int → Int) (onNumber : Number → Number → Number) (a : Option String)
    (b : String) : Option String :=
  match a.bind bigInt, bigInt b with
  | some x, some y => some (bigIntText (onBigInt x y))
  | _, _ =>
    let aFloat := a.elim (.finite 0) number
    let bFloat := number b
    if aFloat.isFinite ∧ bFloat.isFinite then some (onNumber aFloat bFloat).text else a

def addIntegerStrings : Option String → String → Option String := integerStrings (· + ·) Number.add

def subtractIntegerStrings : Option String → String → Option String :=
  integerStrings (· - ·) fun a b => a.add ((Number.finite (-1)).mul b)

def normalizeEventSymbol (e : Event) : Option String :=
  (normalizeString (e.topicSymbol.elim .null .text)).or
    ((normalizeString (e.decoded.get "event")).or (normalizeString (e.eventType.elim .null .text)))
    |>.map toLowerCase

def isGovernanceSymbol (symbol : String) : Bool :=
  symbol ∈ governanceEventTopics || includes symbol "proposal" || includes symbol "vote" || includes symbol "delegate"

structure GovernanceProposal where
  proposer : String
  title : Option String
  description : Option String
  targets : Option (List Value)
  startBlock : Number
  endBlock : Number
  quorum : Option String
  status : String
  executionTxHash : Option String
  votesFor : Option String
  votesAgainst : Option String
  votesAbstain : Option String

structure GovernanceVote where
  weight : String
  support : Support
  reason : Option String
  transactionHash : String
  ledgerSequence : Nat

structure GovernanceDelegate where
  delegatedVotes : Option String
  delegators : Nat
  proposalsVoted : Nat

inductive Column where
  | votesFor | votesAgainst | votesAbstain
  deriving DecidableEq

def column : Support → Column
  | .against => .votesAgainst
  | .abstain => .votesAbstain
  | .for_ | .unknown => .votesFor

def GovernanceProposal.tally (row : GovernanceProposal) : Column → Option String
  | .votesFor => row.votesFor
  | .votesAgainst => row.votesAgainst
  | .votesAbstain => row.votesAbstain

def GovernanceProposal.setTally (row : GovernanceProposal) (column : Column) (text : Option String) :
    GovernanceProposal :=
  match column with
  | .votesFor => { row with votesFor := text }
  | .votesAgainst => { row with votesAgainst := text }
  | .votesAbstain => { row with votesAbstain := text }

/-- The tables, by their unique keys: a contract, a proposal of it, a voter on that, a delegatee. -/
structure Db where
  contracts : Table String String
  proposals : Table (String × String) GovernanceProposal
  votes : Table (String × String × String) GovernanceVote
  delegates : Table (String × String) GovernanceDelegate

def Db.empty : Db := ⟨∅, ∅, ∅, ∅⟩

/-- The row made of an event, its tallies null as the columns' default is. -/
def newProposal (e : Event) (symbol : String) : GovernanceProposal :=
  let fields := parseProposalFields e.decoded
  { proposer := fields.proposer
    title := fields.title
    description := fields.description
    targets := if fields.targets.truthy then parseTargets fields.targets else none
    startBlock := fields.startBlock.getD (.finite 0)
    endBlock := fields.endBlock.getD (.finite 0)
    quorum := fields.quorum
    status := (proposalStatusByTopic symbol).getD "active"
    executionTxHash := if symbol = "proposal_executed" then some e.transactionHash else none
    votesFor := none
    votesAgainst := none
    votesAbstain := none }

/-- An undefined field is left as it is. -/
def updatedProposal (e : Event) (symbol : String) (row : GovernanceProposal) : GovernanceProposal :=
  let fields := parseProposalFields e.decoded
  let targets := if fields.targets.truthy then parseTargets fields.targets else none
  { row with
    proposer := fields.proposer
    title := fields.title.or row.title
    description := fields.description.or row.description
    targets := targets.or row.targets
    startBlock := fields.startBlock.getD row.startBlock
    endBlock := fields.endBlock.getD row.endBlock
    quorum := fields.quorum.or row.quorum
    status := (proposalStatusByTopic symbol).getD "active"
    executionTxHash := if symbol = "proposal_executed" then some e.transactionHash else row.executionTxHash }

def recordProposal (db : Db) (e : Event) (symbol : String) : Db :=
  match (parseProposalFields e.decoded).proposalId with
  | none => db
  | some proposalId =>
    { db with proposals :=
        db.proposals.upsert (e.contractId, proposalId) (newProposal e symbol) (updatedProposal e symbol) }

/-- The proposal of a first vote that no event has described. -/
def votedProposal (e : Event) (voter : String) : GovernanceProposal where
  proposer := voter
  title := none
  description := none
  targets := none
  startBlock := .finite e.ledgerSequence
  endBlock := .finite e.ledgerSequence
  quorum := none
  status := "active"
  executionTxHash := none
  votesFor := none
  votesAgainst := none
  votesAbstain := none

def firstVote (db : Db) (e : Event) (proposalId : String) (fields : VoteFields) : Db :=
  let voteColumn := column fields.support
  let votes := db.votes.insert (e.contractId, proposalId, fields.voter)
    ⟨fields.weight, fields.support, fields.reason, e.transactionHash, e.ledgerSequence⟩
  let proposals := db.proposals.upsert (e.contractId, proposalId) (votedProposal e fields.voter) id
  let newValue := addIntegerStrings
    ((proposals.lookup (e.contractId, proposalId)).bind fun proposal => proposal.tally voteColumn) fields.weight
  { db with
    votes := votes
    proposals := proposals.updateRow (e.contractId, proposalId) fun row => row.setTally voteColumn newValue }

def changedVote (db : Db) (e : Event) (proposalId : String) (fields : VoteFields)
    (existingVote : GovernanceVote) (proposal : GovernanceProposal) : Db :=
  let voteColumn := column fields.support
  let oldColumn := column existingVote.support
  let oldValue := subtractIntegerStrings (some ((proposal.tally oldColumn).getD "0")) existingVote.weight
  let newValue := addIntegerStrings (some ((proposal.tally voteColumn).getD "0")) fields.weight
  { db with
    votes := db.votes.insert (e.contractId, proposalId, fields.voter)
      ⟨fields.weight, fields.support, fields.reason.or existingVote.reason, e.transactionHash, e.ledgerSequence⟩
    -- of two entries for one column the second counts
    proposals := db.proposals.updateRow (e.contractId, proposalId) fun row =>
      (row.setTally oldColumn oldValue).setTally voteColumn newValue }

/-- The branch for votes, and whether it goes on to the one for delegates. -/
def castVote (db : Db) (e : Event) : Db × Bool :=
  let fields := parseVoteFields e.decoded
  match fields.proposalId with
  | none => (db, false)
  | some proposalId =>
    match db.votes.lookup (e.contractId, proposalId, fields.voter) with
    | none => (firstVote db e proposalId fields, true)
    | some existingVote =>
      if existingVote.support ≠ fields.support ∨ existingVote.weight ≠ fields.weight then
        match db.proposals.lookup (e.contractId, proposalId) with
        | none => (db, false)
        | some proposal => (changedVote db e proposalId fields existingVote proposal, true)
      else (db, true)

def weightFromEvent (decoded : Decoded) : Option String :=
  decoded.string ["weight", "votingPower", "delegatedVotes", "votes"]

def recordDelegate (db : Db) (e : Event) : Db :=
  match (parseVoteFields e.decoded).delegatee with
  | none => db
  | some delegatee =>
    let delegatedVotes :=
      ((normalizeString (e.decoded.get "delegatedVotes")).or (weightFromEvent e.decoded)).getD "0"
    { db with delegates :=
        db.delegates.upsert (e.contractId, delegatee) ⟨some delegatedVotes, 1, 0⟩ fun row =>
          { row with
            delegatedVotes := addIntegerStrings (some "0") delegatedVotes
            delegators := row.delegators + 1 } }

def isVote (symbol : String) : Bool :=
  symbol = "vote_cast" || symbol = "vote_cast_event" || includes symbol "vote"

def registered (db : Db) (e : Event) : Db :=
  { db with contracts := db.contracts.upsert e.contractId "token_based" id }

def processGovernanceEvent (db : Db) (e : Event) : Db :=
  match normalizeEventSymbol e with
  | none => db
  | some symbol =>
    if !isGovernanceSymbol symbol then db
    else
      let recorded := recordProposal (registered db e) e symbol
      let (voted, goesOn) := if isVote symbol then castVote recorded e else (recorded, true)
      if goesOn && includes symbol "delegate" then recordDelegate voted e else voted

/-! Runs: events one after another. -/

structure State where
  db : Db
  past : List Event

def State.initial : State := ⟨.empty, []⟩

def State.process (s : State) (e : Event) : State := ⟨processGovernanceEvent s.db e, s.past ++ [e]⟩

def system : Transition.System State Event where
  initial s := s = .initial
  step s e := some (s.process e)

/-- The symbol under which an event is processed at all. -/
def Event.symbol (e : Event) : Option String := (normalizeEventSymbol e).filter isGovernanceSymbol

/-- The proposal that an event is about. -/
def Event.proposal (e : Event) : Option (String × String) :=
  (parseProposalId e.decoded).map fun proposalId => (e.contractId, proposalId)

variable {db : Db} {e : Event} {symbol : String}

theorem process_of_none (none : e.symbol = none) : processGovernanceEvent db e = db := by
  rw [processGovernanceEvent]
  cases named : normalizeEventSymbol e with
  | none => rfl
  | some symbol =>
    have foreign : isGovernanceSymbol symbol = false := by
      simpa [Event.symbol, named, Option.filter] using none
    simp [foreign]

/-- What becomes of the proposals and the votes. -/
def voted (db : Db) (e : Event) (symbol : String) : Db :=
  let recorded := recordProposal (registered db e) e symbol
  if isVote symbol then (castVote recorded e).1 else recorded

theorem tables_recordDelegate : (recordDelegate db e).proposals = db.proposals ∧
    (recordDelegate db e).votes = db.votes := by
  rw [recordDelegate]
  split
  · exact ⟨rfl, rfl⟩
  · exact ⟨rfl, rfl⟩

theorem tables_process (processed : e.symbol = some symbol) :
    (processGovernanceEvent db e).proposals = (voted db e symbol).proposals ∧
      (processGovernanceEvent db e).votes = (voted db e symbol).votes := by
  obtain ⟨named, governance⟩ := Option.filter_eq_some_iff.mp processed
  rw [processGovernanceEvent, voted]
  simp only [named, governance, Bool.not_true, Bool.false_eq_true, if_false]
  cases isVote symbol with
  | false =>
    simp only [Bool.false_eq_true, if_false]
    split
    · exact tables_recordDelegate
    · exact ⟨rfl, rfl⟩
  | true =>
    simp only [if_true]
    split
    · exact tables_recordDelegate
    · exact ⟨rfl, rfl⟩

/-- The text of a tally, null also where there is no proposal. -/
def tallyOf (db : Db) (key : String × String) (column : Column) : Option String :=
  (db.proposals.lookup key).bind fun row => row.tally column

theorem tallyOf_recordProposal (key : String × String) (column : Column) :
    tallyOf (recordProposal db e symbol) key column = tallyOf db key column := by
  rw [recordProposal]
  split
  · rfl
  · rename_i proposalId parsed
    simp only [tallyOf]
    by_cases same : key = (e.contractId, proposalId)
    · rw [same, Table.lookup_upsert_self]
      cases db.proposals.lookup (e.contractId, proposalId) with
      | none => cases column <;> rfl
      | some row => cases column <;> rfl
    · rw [Table.lookup_upsert_ne same]

theorem votes_recordProposal : (recordProposal db e symbol).votes = db.votes := by
  rw [recordProposal]
  split <;> rfl

/-- The status and the proposer of a proposal. -/
def headOf (db : Db) (key : String × String) : Option (String × String) :=
  (db.proposals.lookup key).map fun row => (row.status, row.proposer)

theorem headOf_recordProposal_self {key : String × String} (about : e.proposal = some key) :
    headOf (recordProposal db e symbol) key =
      some ((proposalStatusByTopic symbol).getD "active", (parseProposalFields e.decoded).proposer) := by
  obtain ⟨proposalId, parsed, rfl⟩ := Option.map_eq_some_iff.mp about
  have fields : (parseProposalFields e.decoded).proposalId = some proposalId := parsed
  rw [recordProposal, headOf]
  simp only [fields]
  rw [Table.lookup_upsert_self]
  cases db.proposals.lookup (e.contractId, proposalId) with
  | none => rfl
  | some row => rfl

theorem headOf_recordProposal_ne {key : String × String} (other : e.proposal ≠ some key) :
    headOf (recordProposal db e symbol) key = headOf db key := by
  rw [recordProposal]
  split
  · rfl
  · rename_i proposalId parsed
    have differs : key ≠ (e.contractId, proposalId) := by
      rintro rfl
      exact other (congrArg (Option.map fun proposalId => (e.contractId, proposalId)) parsed)
    simp only [headOf]
    rw [Table.lookup_upsert_ne differs]

@[simp] theorem status_setTally (row : GovernanceProposal) (column : Column) (text : Option String) :
    (row.setTally column text).status = row.status := by
  cases column <;> rfl

@[simp] theorem proposer_setTally (row : GovernanceProposal) (column : Column) (text : Option String) :
    (row.setTally column text).proposer = row.proposer := by
  cases column <;> rfl

theorem headOf_updateRow {key other : String × String} {update : GovernanceProposal → GovernanceProposal}
    (status : ∀ row, (update row).status = row.status) (proposer : ∀ row, (update row).proposer = row.proposer)
    (proposals : Table (String × String) GovernanceProposal) :
    ((proposals.updateRow key update).lookup other).map (fun row => (row.status, row.proposer)) =
      (proposals.lookup other).map fun row => (row.status, row.proposer) := by
  by_cases same : other = key
  · rw [same, Table.lookup_updateRow_self]
    cases proposals.lookup key with
    | none => rfl
    | some row => simp [status, proposer]
  · rw [Table.lookup_updateRow_ne same]

/-- A vote changes neither, once its proposal is there. -/
theorem headOf_castVote (key : String × String)
    (present : ∀ about, e.proposal = some about → (db.proposals.lookup about).isSome) :
    headOf (castVote db e).1 key = headOf db key := by
  unfold castVote
  dsimp only
  split
  · rfl
  · rename_i proposalId parsed
    have about : e.proposal = some (e.contractId, proposalId) := by
      have fields : parseProposalId e.decoded = some proposalId := parsed
      rw [Event.proposal, fields]
      rfl
    obtain ⟨row, stored⟩ := Option.isSome_iff_exists.mp (present _ about)
    split
    · unfold firstVote headOf
      dsimp only
      rw [headOf_updateRow (fun row => by simp) (fun row => by simp)]
      by_cases same : key = (e.contractId, proposalId)
      · rw [same, Table.lookup_upsert_self, stored]
        rfl
      · rw [Table.lookup_upsert_ne same]
    · split
      · split
        · rfl
        · unfold changedVote headOf
          dsimp only
          rw [headOf_updateRow (fun row => by simp) (fun row => by simp)]
      · rfl

theorem headOf_process (processed : e.symbol = some symbol) (key : String × String) :
    headOf (processGovernanceEvent db e) key = headOf (recordProposal (registered db e) e symbol) key := by
  have same : headOf (processGovernanceEvent db e) key = headOf (voted db e symbol) key := by
    rw [headOf, (tables_process processed).1]
    rfl
  rw [same, voted]
  split
  · refine headOf_castVote key fun about proposal => ?_
    have recorded : headOf (recordProposal (registered db e) e symbol) about = _ :=
      headOf_recordProposal_self proposal
    obtain ⟨row, stored, -⟩ := Option.map_eq_some_iff.mp recorded
    exact Option.isSome_iff_exists.mpr ⟨row, stored⟩
  · rfl

/-- The status that a lifecycle event of a proposal reports. -/
def lifecycleOf (key : String × String) (e : Event) : Option String :=
  if e.proposal = some key then e.symbol.bind proposalStatusByTopic else none

/-- The proposer that a creation event of a proposal names. -/
def creatorOf (key : String × String) (e : Event) : Option String :=
  if e.proposal = some key ∧ (e.symbol = some "proposal_created" ∨ e.symbol = some "proposal_created_event") then
    some (parseProposalFields e.decoded).proposer
  else none

def lastStatus (past : List Event) (key : String × String) : Option String :=
  (past.filterMap (lifecycleOf key)).getLast?

def lastCreator (past : List Event) (key : String × String) : Option String :=
  (past.filterMap (creatorOf key)).getLast?

/-- Status and proposer are those of the last lifecycle event and of the creation. -/
def Driven (s : State) : Prop :=
  ∀ key, (∀ status, lastStatus s.past key = some status → (headOf s.db key).map Prod.fst = some status) ∧
    ∀ proposer, lastCreator s.past key = some proposer → (headOf s.db key).map Prod.snd = some proposer

/-- An event about a proposal that is none of its lifecycle comes while its status is active, and one
that is not its creation names the same proposer. -/
def Steady (s : State) (e : Event) : Prop :=
  ∀ symbol key, e.symbol = some symbol → e.proposal = some key →
    (proposalStatusByTopic symbol = none → ∀ status, lastStatus s.past key = some status → status = "active") ∧
    (creatorOf key e = none → ∀ proposer, lastCreator s.past key = some proposer →
      (parseProposalFields e.decoded).proposer = proposer)

variable {s : State}

theorem getLast_filterMap_append {value : Event → Option String} (past : List Event) (e : Event) :
    ((past ++ [e]).filterMap value).getLast? = (value e).or (past.filterMap value).getLast? := by
  rw [List.filterMap_append, List.getLast?_append]
  cases reported : value e <;> simp [reported]

theorem lastStatus_process (key : String × String) :
    lastStatus (s.process e).past key = (lifecycleOf key e).or (lastStatus s.past key) :=
  getLast_filterMap_append s.past e

theorem lastCreator_process (key : String × String) :
    lastCreator (s.process e).past key = (creatorOf key e).or (lastCreator s.past key) :=
  getLast_filterMap_append s.past e

/-- Of any other proposal an event says and changes nothing. -/
theorem process_other {key : String × String} (other : e.proposal ≠ some key ∨ e.symbol = none) :
    headOf (s.process e).db key = headOf s.db key ∧ lastStatus (s.process e).past key = lastStatus s.past key ∧
      lastCreator (s.process e).past key = lastCreator s.past key := by
  have silent : lifecycleOf key e = none ∧ creatorOf key e = none := by
    rw [lifecycleOf, creatorOf]
    rcases other with other | none
    · simp [other]
    · simp [none]
  rw [lastStatus_process, lastCreator_process, silent.1, silent.2]
  refine ⟨?_, rfl, rfl⟩
  cases processed : e.symbol with
  | none => rw [State.process, process_of_none processed]
  | some symbol =>
    have differs := other.resolve_right (by simp [processed])
    rw [State.process, headOf_process processed, headOf_recordProposal_ne differs]
    rfl

theorem process_own {key : String × String} (processed : e.symbol = some symbol) (about : e.proposal = some key) :
    headOf (s.process e).db key =
      some ((proposalStatusByTopic symbol).getD "active", (parseProposalFields e.decoded).proposer) := by
  rw [State.process, headOf_process processed, headOf_recordProposal_self about]

theorem steady_of_driven (after : Driven (s.process e)) : Steady s e := by
  intro symbol key processed about
  have head := process_own (s := s) processed about
  obtain ⟨status, proposer⟩ := after key
  rw [head, lastStatus_process] at status
  rw [head, lastCreator_process] at proposer
  constructor
  · intro unlisted last stored
    have silent : lifecycleOf key e = none := by
      simp [lifecycleOf, processed, unlisted]
    have kept := status last (by rw [silent, stored]; rfl)
    rw [unlisted] at kept
    exact (Option.some.inj kept).symm
  · intro silent creator stored
    have kept := proposer creator (by rw [silent, stored]; rfl)
    exact Option.some.inj kept

theorem driven_of_steady (driven : Driven s) (steady : Steady s e) : Driven (s.process e) := by
  intro key
  by_cases own : e.proposal = some key ∧ e.symbol.isSome
  · obtain ⟨about, named⟩ := own
    obtain ⟨symbol, processed⟩ := Option.isSome_iff_exists.mp named
    obtain ⟨status, proposer⟩ := steady symbol key processed about
    rw [process_own processed about, lastStatus_process, lastCreator_process]
    have listed : lifecycleOf key e = proposalStatusByTopic symbol := by
      simp [lifecycleOf, about, processed]
    rw [listed]
    constructor
    · intro last found
      cases reported : proposalStatusByTopic symbol with
      | none =>
        rw [reported] at found
        exact congrArg some (status reported last found).symm
      | some new =>
        rw [reported] at found
        exact found
    · intro creator found
      cases reported : creatorOf key e with
      | none =>
        rw [reported] at found
        exact congrArg some (proposer reported creator found)
      | some new =>
        rw [reported] at found
        have created : creatorOf key e = some (parseProposalFields e.decoded).proposer := by
          rw [creatorOf] at reported ⊢
          split at reported
          · rename_i creation
            rw [if_pos creation]
          · cases reported
        rw [← found, ← reported, created]
        rfl
  · have other : e.proposal ≠ some key ∨ e.symbol = none := by
      by_cases about : e.proposal = some key
      · exact .inr (by simpa [about] using own)
      · exact .inl about
    obtain ⟨head, last, creator⟩ := process_other (s := s) other
    rw [head, last, creator]
    exact driven key

theorem driven_process (driven : Driven s) : Driven (s.process e) ↔ Steady s e :=
  ⟨steady_of_driven, driven_of_steady driven⟩

/-- Exactly the runs of steady events keep to the lifecycle. -/
theorem driven_iff (events : List Event) :
    system.Along Driven .initial events ↔ system.Guarded Steady .initial events := by
  refine Transition.System.along_iff_guarded (fun driven => driven) ?_ ?_ ?_ events
  · intro s e t driven steady stepped
    obtain rfl := Option.some.inj stepped
    exact (driven_process driven).mpr steady
  · intro s e t driven stepped after
    obtain rfl := Option.some.inj stepped
    exact (driven_process driven).mp after
  · intro key
    constructor
    · intro status none
      cases none
    · intro proposer none
      cases none

def event (topic : String) (decoded : Decoded) : Event := ⟨"CDAO", 100, none, some topic, decoded, "tx"⟩

def created : Event := event "proposal_created" [("proposal_id", .number (.finite 1)), ("proposer", .text "alice")]

/-- A vote that is indexed after the execution. -/
def lateVote : List Event :=
  [created,
    event "proposal_executed" [("proposal_id", .number (.finite 1)), ("proposer", .text "alice")],
    event "vote_cast"
      [("proposal_id", .number (.finite 1)), ("voter", .text "bob"), ("support", .text "for"), ("weight", .bigint 5)]]

theorem late_vote_reopens : ∃ s, system.Reachable s ∧ ¬ Driven s := by
  have ends : (system.run .initial lateVote).map (fun s =>
      (headOf s.db ("CDAO", "1"), lastStatus s.past ("CDAO", "1"))) =
        some (some ("active", "unknown"), some "executed") := by decide +kernel
  obtain ⟨s, executed, ends⟩ := Option.map_eq_some_iff.mp ends
  obtain ⟨head, last⟩ := Prod.mk.inj ends
  refine ⟨s, Transition.System.reachable_of_run system .initial lateVote rfl executed, fun driven => ?_⟩
  have status := (driven ("CDAO", "1")).1 "executed" last
  rw [head] at status
  exact absurd status (by decide)

/-! Tallies. -/

/-- Null counts as zero. -/
def readTally : Option String → Option Int
  | none => some 0
  | some text => bigInt text

def weightFor (support : Support) (vote : GovernanceVote) : Int :=
  if vote.support = support then (bigInt vote.weight).getD 0 else 0

/-- The sum of the recorded votes on a proposal with some support. -/
def recordedVotes (db : Db) (key : String × String) (support : Support) : Int :=
  Table.total (fun voteKey => voteKey.1 = key.1 ∧ voteKey.2.1 = key.2) (weightFor support) db.votes

/-- The tallies of every stored proposal are the sums of its votes. -/
def Tallied (db : Db) : Prop :=
  ∀ key row, db.proposals.lookup key = some row → ∀ support, support ≠ .unknown →
    readTally (row.tally (column support)) = some (recordedVotes db key support)

/-- The vote that an event is processed as. -/
def Event.vote (e : Event) : Option (String × VoteFields) :=
  (e.symbol.filter isVote).bind fun _ =>
    (parseProposalId e.decoded).map fun proposalId => (proposalId, parseVoteFields e.decoded)

/-- For, against or abstaining, with a natural number as weight. -/
def proper (fields : VoteFields) : Bool :=
  fields.support ≠ .unknown && (bigInt fields.weight).any fun weight => 0 ≤ weight

/-- Who votes again with another weight changes sides too or had none, and where a tally is still null
the weight is a safe integer. -/
def balanced (db : Db) (e : Event) : Bool :=
  e.vote.all fun (proposalId, fields) =>
    match db.votes.lookup (e.contractId, proposalId, fields.voter) with
    | none =>
      tallyOf db (e.contractId, proposalId) (column fields.support) ≠ none ||
        (bigInt fields.weight).any fun weight => weight < 2 ^ 53
    | some existingVote =>
      existingVote.support ≠ fields.support || existingVote.weight = fields.weight ||
        bigInt existingVote.weight = some 0

def properVotes (_ : State) (e : Event) : Bool := e.vote.all fun vote => proper vote.2

structure Sound (db : Db) : Prop where
  tallies : ∀ key support, support ≠ .unknown →
    readTally (tallyOf db key (column support)) = some (recordedVotes db key support)
  votes : ∀ key vote, db.votes.lookup key = some vote → vote.support ≠ .unknown ∧
    ∃ weight : Nat, bigInt vote.weight = some (weight : Int)

theorem Sound.tallied (sound : Sound db) : Tallied db := by
  intro key row stored support known
  have tallies := sound.tallies key support known
  rwa [tallyOf, stored] at tallies

theorem sound_empty : Sound .empty where
  tallies key support known := by
    rw [recordedVotes, Table.total]
    rfl
  votes key vote stored := by cases stored

theorem bigInt_zero : bigInt "0" = some 0 := by decide

theorem readTally_eq (text : Option String) : bigInt (text.getD "0") = readTally text := by
  cases text with
  | none => exact bigInt_zero
  | some text => rfl

/-- A column that is null is added to as doubles are, exactly so below 2^53. -/
theorem readTally_add {tally : Option String} {weight : String} {total : Int} {n : Nat}
    (stored : readTally tally = some total) (read : bigInt weight = some (n : Int))
    (safe : tally = none → n < 2 ^ 53) :
    readTally (addIntegerStrings tally weight) = some (total + n) := by
  cases tally with
  | none =>
    obtain rfl := Option.some.inj stored
    have double : number weight = .finite n := by
      rw [number_of_bigInt read]
      exact roundRat_natCast (safe rfl)
    have sum : (Number.finite 0).add (.finite n) = .finite (n : ℚ) := by
      rw [Number.add, zero_add]
      exact roundRat_natCast (safe rfl)
    simp only [addIntegerStrings, integerStrings, Option.bind_none, Option.elim_none, double, Number.isFinite,
      and_self, if_true, sum, text_natCast]
    rw [readTally, bigInt_bigIntText, zero_add]
  | some text =>
    have parsed : bigInt text = some total := stored
    simp only [addIntegerStrings, integerStrings, Option.bind_some, parsed, read]
    exact bigInt_bigIntText _

theorem readTally_subtract {text weight : String} {total n : Int} (stored : bigInt text = some total)
    (read : bigInt weight = some n) : readTally (subtractIntegerStrings (some text) weight) = some (total - n) := by
  simp only [subtractIntegerStrings, integerStrings, Option.bind_some, stored, read]
  exact bigInt_bigIntText _

theorem column_inj {a b : Support} (knownA : a ≠ .unknown) (knownB : b ≠ .unknown)
    (same : column a = column b) : a = b := by
  cases a <;> cases b <;> first | rfl | contradiction

theorem tally_setTally_self (row : GovernanceProposal) (column : Column) (text : Option String) :
    (row.setTally column text).tally column = text := by
  cases column <;> rfl

theorem tally_setTally_ne (row : GovernanceProposal) {column other : Column} (differs : other ≠ column)
    (text : Option String) : (row.setTally column text).tally other = row.tally other := by
  cases column <;> cases other <;> first | rfl | contradiction

variable {proposalId : String} {fields : VoteFields} {key : String × String}

theorem recordedVotes_insert {after : Db} {contractId voter : String} {vote : GovernanceVote} (support : Support)
    (votes : after.votes = db.votes.insert (contractId, proposalId, voter) vote) :
    recordedVotes after key support = recordedVotes db key support +
      if key = (contractId, proposalId) then
        weightFor support vote - (db.votes.lookup (contractId, proposalId, voter)).elim 0 (weightFor support)
      else 0 := by
  rw [recordedVotes]
  rw [votes, Table.total_insert]
  congr 1
  by_cases same : key = (contractId, proposalId)
  · subst same
    simp
  · have differs : ¬ (contractId = key.1 ∧ proposalId = key.2) := by
      rintro ⟨rfl, rfl⟩
      exact same rfl
    simp [same, differs]

theorem tallyOf_firstVote (key : String × String) (other : Column) :
    tallyOf (firstVote db e proposalId fields) key other =
      if key = (e.contractId, proposalId) ∧ other = column fields.support then
        addIntegerStrings (tallyOf db key other) fields.weight
      else tallyOf db key other := by
  have upserted : (db.proposals.upsert (e.contractId, proposalId) (votedProposal e fields.voter) id).lookup
      (e.contractId, proposalId) =
        some ((db.proposals.lookup (e.contractId, proposalId)).elim (votedProposal e fields.voter) id) :=
    Table.lookup_upsert_self
  have kept (column : Column) : ((db.proposals.lookup (e.contractId, proposalId)).elim
      (votedProposal e fields.voter) id).tally column = tallyOf db (e.contractId, proposalId) column := by
    rw [tallyOf]
    cases db.proposals.lookup (e.contractId, proposalId) with
    | none => cases column <;> rfl
    | some row => rfl
  by_cases same : key = (e.contractId, proposalId)
  · subst same
    have after : tallyOf (firstVote db e proposalId fields) (e.contractId, proposalId) other =
        (((db.proposals.lookup (e.contractId, proposalId)).elim (votedProposal e fields.voter) id).setTally
          (column fields.support) (addIntegerStrings (tallyOf db (e.contractId, proposalId) (column fields.support))
            fields.weight)).tally other := by
      rw [tallyOf, firstVote]
      dsimp only
      rw [Table.lookup_updateRow_self, upserted, Option.bind_some, kept]
      rfl
    rw [after]
    by_cases voted : other = column fields.support
    · rw [voted, tally_setTally_self, if_pos ⟨rfl, rfl⟩]
    · rw [tally_setTally_ne _ voted, kept, if_neg fun both => voted both.2]
  · rw [if_neg fun both => same both.1, tallyOf, firstVote]
    dsimp only
    rw [Table.lookup_updateRow_ne same, Table.lookup_upsert_ne same]
    rfl

theorem tallyOf_changedVote {existingVote : GovernanceVote} {proposal : GovernanceProposal}
    (stored : db.proposals.lookup (e.contractId, proposalId) = some proposal) (key : String × String)
    (other : Column) :
    tallyOf (changedVote db e proposalId fields existingVote proposal) key other =
      if key = (e.contractId, proposalId) then
        if other = column fields.support then
          addIntegerStrings (some ((tallyOf db key other).getD "0")) fields.weight
        else if other = column existingVote.support then
          subtractIntegerStrings (some ((tallyOf db key other).getD "0")) existingVote.weight
        else tallyOf db key other
      else tallyOf db key other := by
  unfold tallyOf changedVote
  dsimp only
  by_cases same : key = (e.contractId, proposalId)
  · subst same
    rw [Table.lookup_updateRow_self, stored, if_pos rfl]
    simp only [Option.map_some, Option.bind_some]
    by_cases voted : other = column fields.support
    · rw [voted, tally_setTally_self, if_pos rfl]
    · rw [tally_setTally_ne _ voted, if_neg voted]
      by_cases left : other = column existingVote.support
      · rw [left, tally_setTally_self, if_pos rfl]
      · rw [tally_setTally_ne _ left, if_neg left]
  · rw [Table.lookup_updateRow_ne same, if_neg same]

theorem proper_iff : proper fields = true ↔
    fields.support ≠ .unknown ∧ ∃ weight : Nat, bigInt fields.weight = some (weight : Int) := by
  rw [proper, Bool.and_eq_true, decide_eq_true_eq, Option.any_eq_true]
  constructor
  · rintro ⟨known, weight, read, nonneg⟩
    exact ⟨known, weight.toNat, by rw [read, Int.toNat_of_nonneg (of_decide_eq_true nonneg)]⟩
  · rintro ⟨known, weight, read⟩
    exact ⟨known, weight, read, by simp⟩

theorem Sound.insertVote {after : Db} {voter : String} {vote : GovernanceVote} (sound : Sound db)
    (votes : after.votes = db.votes.insert (e.contractId, proposalId, voter) vote) (known : vote.support ≠ .unknown)
    (natural : ∃ weight : Nat, bigInt vote.weight = some (weight : Int)) :
    ∀ key vote, after.votes.lookup key = some vote → vote.support ≠ .unknown ∧
      ∃ weight : Nat, bigInt vote.weight = some (weight : Int) := by
  intro key other stored
  rw [votes] at stored
  by_cases same : key = (e.contractId, proposalId, voter)
  · rw [same, AList.lookup_insert] at stored
    obtain rfl := Option.some.inj stored
    exact ⟨known, natural⟩
  · rw [AList.lookup_insert_ne same] at stored
    exact sound.votes key other stored

theorem Sound.firstVote (sound : Sound db) (isProper : proper fields = true)
    (new : db.votes.lookup (e.contractId, proposalId, fields.voter) = none)
    (safe : tallyOf db (e.contractId, proposalId) (column fields.support) = none →
      (bigInt fields.weight).any (fun weight => weight < 2 ^ 53) = true) :
    Sound (firstVote db e proposalId fields) := by
  obtain ⟨known, weight, read⟩ := proper_iff.mp isProper
  refine ⟨fun key support knownSupport => ?_, sound.insertVote rfl known ⟨weight, read⟩⟩
  have tally := sound.tallies key support knownSupport
  rw [tallyOf_firstVote, recordedVotes_insert support rfl, new, Option.elim_none, sub_zero]
  by_cases same : key = (e.contractId, proposalId)
  · subst same
    by_cases voted : support = fields.support
    · subst voted
      have small : tallyOf db (e.contractId, proposalId) (column fields.support) = none → weight < 2 ^ 53 := by
        intro null
        have bounded := safe null
        rw [read, Option.any_some, decide_eq_true_eq] at bounded
        exact_mod_cast bounded
      rw [if_pos ⟨rfl, rfl⟩, if_pos rfl, readTally_add tally read small]
      simp [weightFor, read]
    · have differs : column support ≠ column fields.support := fun same => voted (column_inj knownSupport known same)
      rw [if_neg fun both => differs both.2, if_pos rfl, tally]
      simp [weightFor, Ne.symm voted]
  · rw [if_neg fun both => same both.1, if_neg same, add_zero]
    exact tally

theorem Sound.changedVote {existingVote : GovernanceVote} {proposal : GovernanceProposal} (sound : Sound db)
    (isProper : proper fields = true)
    (existing : db.votes.lookup (e.contractId, proposalId, fields.voter) = some existingVote)
    (stored : db.proposals.lookup (e.contractId, proposalId) = some proposal)
    (apart : existingVote.support ≠ fields.support ∨ bigInt existingVote.weight = some 0) :
    Sound (changedVote db e proposalId fields existingVote proposal) := by
  obtain ⟨known, weight, read⟩ := proper_iff.mp isProper
  obtain ⟨oldKnown, oldWeight, oldRead⟩ := sound.votes _ _ existing
  refine ⟨fun key support knownSupport => ?_, sound.insertVote rfl known ⟨weight, read⟩⟩
  have tally := sound.tallies key support knownSupport
  rw [tallyOf_changedVote stored, recordedVotes_insert support rfl, existing, Option.elim_some]
  by_cases same : key = (e.contractId, proposalId)
  · subst same
    rw [if_pos rfl, if_pos rfl]
    have current : readTally (some ((tallyOf db (e.contractId, proposalId) (column support)).getD "0")) =
        some (recordedVotes db (e.contractId, proposalId) support) := by
      rw [← tally]
      exact readTally_eq _
    by_cases voted : support = fields.support
    · subst voted
      have nothing : weightFor fields.support existingVote = 0 := by
        rcases apart with differs | zero
        · simp [weightFor, differs]
        · simp [weightFor, zero]
      have counted : weightFor fields.support ⟨fields.weight, fields.support, fields.reason.or existingVote.reason,
          e.transactionHash, e.ledgerSequence⟩ = weight := by
        simp [weightFor, read]
      rw [if_pos rfl, readTally_add current read (fun null => by cases null), counted, nothing, sub_zero]
    · have differs : column support ≠ column fields.support := fun same => voted (column_inj knownSupport known same)
      rw [if_neg differs]
      by_cases left : support = existingVote.support
      · subst left
        rw [if_pos rfl, readTally_subtract current oldRead]
        have counted : weightFor existingVote.support ⟨fields.weight, fields.support,
            fields.reason.or existingVote.reason, e.transactionHash, e.ledgerSequence⟩ = 0 := by
          simp [weightFor, Ne.symm voted]
        have taken : weightFor existingVote.support existingVote = oldWeight := by
          simp [weightFor, oldRead]
        rw [counted, taken, zero_sub, sub_eq_add_neg]
      · have away : column support ≠ column existingVote.support :=
          fun same => left (column_inj knownSupport oldKnown same)
        rw [if_neg away, tally]
        simp [weightFor, Ne.symm voted, Ne.symm left]
  · rw [if_neg same, if_neg same, add_zero]
    exact tally

theorem Sound.recordProposal (sound : Sound db) : Sound (recordProposal (registered db e) e symbol) where
  tallies key support known := by
    have same : recordedVotes (Governance.recordProposal (registered db e) e symbol) key support =
        recordedVotes db key support := by
      rw [recordedVotes, votes_recordProposal]
      rfl
    rw [tallyOf_recordProposal, same]
    exact sound.tallies key support known
  votes := by
    rw [votes_recordProposal]
    exact sound.votes

theorem Sound.castVote (sound : Sound db)
    (isProper : ∀ proposalId, parseProposalId e.decoded = some proposalId → proper (parseVoteFields e.decoded) = true)
    (meets : ∀ proposalId, parseProposalId e.decoded = some proposalId →
      match db.votes.lookup (e.contractId, proposalId, (parseVoteFields e.decoded).voter) with
      | none => tallyOf db (e.contractId, proposalId) (column (parseVoteFields e.decoded).support) = none →
        (bigInt (parseVoteFields e.decoded).weight).any (fun weight => weight < 2 ^ 53) = true
      | some existingVote => existingVote.support ≠ (parseVoteFields e.decoded).support ∨
        existingVote.weight = (parseVoteFields e.decoded).weight ∨ bigInt existingVote.weight = some 0) :
    Sound (castVote db e).1 := by
  unfold Governance.castVote
  dsimp only
  split
  · exact sound
  · rename_i proposalId parsed
    have isProper := isProper proposalId parsed
    have meets := meets proposalId parsed
    split
    · rename_i new
      rw [new] at meets
      exact sound.firstVote isProper new meets
    · rename_i existingVote existing
      rw [existing] at meets
      split
      · rename_i changed
        split
        · exact sound
        · rename_i proposal stored
          refine sound.changedVote isProper existing stored ?_
          rcases meets with differs | same | zero
          · exact .inl differs
          · exact .inl (changed.resolve_right (not_not.mpr same))
          · exact .inr zero
      · exact sound

theorem Sound.process (sound : Sound db) (isProper : e.vote.all (fun vote => proper vote.2) = true)
    (meets : balanced db e = true) : Sound (processGovernanceEvent db e) := by
  cases processed : e.symbol with
  | none => rwa [process_of_none processed]
  | some symbol =>
    have through (tables : Db) (is : (processGovernanceEvent db e).proposals = tables.proposals ∧
        (processGovernanceEvent db e).votes = tables.votes) (kept : Sound tables) :
        Sound (processGovernanceEvent db e) := by
      refine ⟨fun key support known => ?_, is.2 ▸ kept.votes⟩
      have tallies := kept.tallies key support known
      rw [tallyOf, recordedVotes] at tallies ⊢
      rw [is.1, is.2]
      exact tallies
    refine through (voted db e symbol) (tables_process processed) ?_
    unfold voted
    dsimp only
    split
    · rename_i vote
      have cast (proposalId : String) (parsed : parseProposalId e.decoded = some proposalId) :
          e.vote = some (proposalId, parseVoteFields e.decoded) := by
        simp [Event.vote, processed, Option.filter, vote, parsed]
      refine sound.recordProposal.castVote (fun proposalId parsed => ?_) fun proposalId parsed => ?_
      · rw [cast proposalId parsed] at isProper
        exact isProper
      · rw [balanced, cast proposalId parsed] at meets
        rw [votes_recordProposal, tallyOf_recordProposal]
        simp only [Option.all_some] at meets
        split
        · rename_i new
          have new : db.votes.lookup (e.contractId, proposalId, (parseVoteFields e.decoded).voter) = none := new
          rw [new] at meets
          intro null
          have null : tallyOf db (e.contractId, proposalId) (column (parseVoteFields e.decoded).support) = none := null
          simpa [null] using meets
        · rename_i existingVote existing
          have existing : db.votes.lookup (e.contractId, proposalId, (parseVoteFields e.decoded).voter) =
            some existingVote := existing
          rw [existing] at meets
          simpa [or_assoc] using meets
    · exact sound.recordProposal

def Counted (s : State) : Prop := Sound s.db

/-- As long as who votes again with another weight changes sides, the tallies are the sums. -/
theorem tallied_of_balanced {s : State}
    (reached : system.ReachableWhen (fun s e => properVotes s e = true ∧ balanced s.db e = true) s) :
    Tallied s.db := by
  have counted : Counted s := by
    refine reached.invariant ?_ ?_
    · rintro s rfl
      exact sound_empty
    · rintro s e t sound ⟨isProper, meets⟩ stepped
      obtain rfl := Option.some.inj stepped
      exact Sound.process sound isProper meets
  exact Sound.tallied counted

def vote (voter support : String) (weight : Int) : Event :=
  event "vote_cast"
    [("proposal_id", .number (.finite 1)), ("voter", .text voter), ("support", .text support),
      ("weight", .bigint weight)]

/-- One voter changes sides, another votes again in the same way. -/
def changedSides : List Event :=
  [created, vote "alice" "for" 10, vote "bob" "yes" 7, vote "alice" "against" 25, vote "bob" "yes" 7]

theorem changed_sides_tallied : ∃ s, system.run .initial changedSides = some s ∧
    tallyOf s.db ("CDAO", "1") .votesFor = some "7" ∧ Tallied s.db := by
  have tally : (system.run .initial changedSides).map (fun s => tallyOf s.db ("CDAO", "1") .votesFor) =
      some (some "7") := by decide +kernel
  obtain ⟨s, executed, tally⟩ := Option.map_eq_some_iff.mp tally
  refine ⟨s, executed, tally, tallied_of_balanced ?_⟩
  refine Transition.System.reachableWhen_of_run system .initial changedSides rfl ?_ executed
  refine Transition.System.guarded_of_guardedBy (fun s e => properVotes s e && balanced s.db e) ?_
    (by decide +kernel)
  intro s e both
  exact Bool.and_eq_true_iff.mp both

/-- The voter has 25 on record, the tally has both weights. -/
theorem raised_vote_counted_twice :
    ∃ s, system.ReachableWhen (fun s e => properVotes s e = true) s ∧ ¬ Tallied s.db := by
  have ends : (system.run .initial [created, vote "alice" "for" 10, vote "alice" "for" 25]).map (fun s =>
      (tallyOf s.db ("CDAO", "1") .votesFor, recordedVotes s.db ("CDAO", "1") .for_)) =
        some (some "35", 25) := by decide +kernel
  obtain ⟨s, executed, ends⟩ := Option.map_eq_some_iff.mp ends
  obtain ⟨tally, votes⟩ := Prod.mk.inj ends
  have reached : system.ReachableWhen (fun s e => properVotes s e = true) s := by
    refine Transition.System.reachableWhen_of_run system .initial _ rfl ?_ executed
    exact Transition.System.guarded_of_guardedBy properVotes (fun _ _ => id) (by decide +kernel)
  refine ⟨s, reached, fun tallied => ?_⟩
  obtain ⟨row, stored, text⟩ := Option.bind_eq_some_iff.mp tally
  have sums := tallied ("CDAO", "1") row stored .for_ (by decide)
  have read : readTally (some "35") = some 35 := by decide
  have column : column .for_ = .votesFor := rfl
  rw [column, text, votes, read] at sums
  cases sums

end Octraban.Governance
