import Octraban.Core.JavaScript
import Octraban.Core.Upsert

/-! upgrade-governance.ts: the history of a contract's upgrades, with their governance, and the
hash that the contract has. -/
namespace Octraban.UpgradeGovernance
open JavaScript

inductive GovernanceType where
  | single_key
  | multisig
  | timelock
  | dao
  | unknown
  deriving DecidableEq

inductive RiskLevel where
  | none
  | low
  | medium
  | high
  | critical
  deriving DecidableEq

structure GovernanceSignals where
  signerCount : Option Nat
  threshold : Option Int
  hasTimelock : Bool
  timelockSeconds : Option Int
  daoProposalId : Option String
  daoVotes : Option Nat

structure GovernanceAnalysis where
  governanceType : GovernanceType
  isMultisig : Bool
  signerCount : Nat
  threshold : Int
  hasTimelock : Bool
  timelockSeconds : Int
  daoProposalId : Option String
  daoVotes : Nat

/-- An empty id is no proposal. -/
def truthy (daoProposalId : Option String) : Bool := daoProposalId.any (· ≠ "")

def analyzeGovernance (signals : GovernanceSignals) : GovernanceAnalysis :=
  let signerCount := signals.signerCount.getD 0
  let timelockSeconds := signals.timelockSeconds.getD 0
  let hasTimelock := signals.hasTimelock || 0 < timelockSeconds
  { governanceType :=
      if truthy signals.daoProposalId then .dao
      else if hasTimelock then .timelock
      else if 1 < signerCount then .multisig
      else if signerCount = 1 then .single_key
      else .unknown
    isMultisig := 1 < signerCount
    signerCount
    threshold := signals.threshold.getD 0
    hasTimelock
    timelockSeconds
    daoProposalId := signals.daoProposalId
    daoVotes := signals.daoVotes.getD 0 }

def computeDecentralizationScore (analysis : GovernanceAnalysis) : Number :=
  let authority : Nat :=
    if analysis.signerCount = 1 then 5
    else if 1 < analysis.signerCount then
      let coverage : Nat := if 0 < analysis.threshold ∧ analysis.signerCount ≤ analysis.threshold * 2 then 10 else 0
      min 45 (15 + min 20 ((analysis.signerCount - 1) * 5) + coverage)
    else 0
  let timelock : Number :=
    if analysis.hasTimelock then
      let days := (Number.finite analysis.timelockSeconds).div (.finite (24 * 3600))
      (Number.finite 25).min ((Number.finite 10).add (days.mul (.finite 5)).floor)
    else .finite 0
  let dao : Number :=
    if truthy analysis.daoProposalId then
      (Number.finite 30).min ((Number.finite 15).add ((Number.finite analysis.daoVotes).div (.finite 10)).floor)
    else .finite 0
  (Number.finite 0).max ((Number.finite 100).min (((Number.finite authority).add timelock).add dao))

def LEDGER_SECONDS : Int := 5

def NEW_ACCOUNT_LEDGERS : Int := 17280

def ACCESS_CONTROL_FUNCTIONS : List String :=
  ["set_admin", "set_administrator", "transfer_admin", "transfer_ownership", "set_owner", "set_authority", "renounce_ownership",
    "add_signer", "remove_signer", "set_threshold", "upgrade"]

structure Advisory where
  id : String
  title : String
  publishedAt : Option Int

/-- Times are in milliseconds. -/
structure SuspiciousContext where
  upgradeTime : Int
  upgraderAccountAgeLedgers : Option Int
  recentVulnerability : Option Advisory
  criticalFnChanges : List String
  governanceType : GovernanceType

structure SuspiciousResult where
  flags : List String
  isSuspicious : Bool
  riskLevel : RiskLevel

def FLAG_WEIGHTS : String → Nat
  | "post_vuln_upgrade" => 3
  | "critical_acl_change" => 3
  | "new_account_upgrader" => 2
  | "single_key_critical" => 2
  | _ => 1

def detectSuspiciousActivity (ctx : SuspiciousContext) : SuspiciousResult :=
  let hourUtc := ctx.upgradeTime / 3600000 % 24
  let aclChange := ctx.criticalFnChanges.any (· ∈ ACCESS_CONTROL_FUNCTIONS)
  let flags :=
    (if ctx.recentVulnerability.isSome then ["post_vuln_upgrade"] else []) ++
    (if ctx.upgraderAccountAgeLedgers.any fun age => 0 ≤ age ∧ age < NEW_ACCOUNT_LEDGERS then ["new_account_upgrader"] else []) ++
    (if 0 ≤ hourUtc ∧ hourUtc < 4 then ["midnight_upgrade"] else []) ++
    (if aclChange then ["critical_acl_change"] else []) ++
    (if aclChange ∧ ctx.governanceType = .single_key then ["single_key_critical"] else [])
  let score := (flags.map FLAG_WEIGHTS).sum
  { flags
    isSuspicious := 0 < flags.length
    riskLevel :=
      if score = 0 then .none else if score ≤ 1 then .low else if score ≤ 3 then .medium else if score ≤ 5 then .high else .critical }

/-! ### What is read -/

structure SignerSnapshot where
  signers : Nat
  highThreshold : Option Int

structure StellarAccount where
  numSigners : Nat
  high : Option Int
  since : Option Int

/-- What the gatherers find in the database. -/
structure Reads where
  snapshot : Option SignerSnapshot
  signerAccount : Option StellarAccount
  executedByTx : Option String
  lastExecuted : Option String
  votes : String → Nat
  advisory : Option Advisory
  upgraderAccount : Option StellarAccount

def gatherGovernanceSignals (reads : Reads) (upgrader transactionHash : Option String) : GovernanceSignals :=
  let account := if truthy upgrader then reads.signerAccount else none
  let proposal := if truthy transactionHash then reads.executedByTx else none
  let correlated := proposal.or reads.lastExecuted
  { signerCount := (reads.snapshot.map SignerSnapshot.signers).or (account.map StellarAccount.numSigners)
    threshold := reads.snapshot.elim (account.bind StellarAccount.high) SignerSnapshot.highThreshold
    hasTimelock := false
    timelockSeconds := none
    daoProposalId := correlated
    daoVotes := correlated.map reads.votes }

def upgraderAccountAge (reads : Reads) (upgrader : Option String) (upgradeTime : Int) : Option Int :=
  if truthy upgrader then
    (reads.upgraderAccount.bind StellarAccount.since).map fun since => max 0 (upgradeTime - since) / (LEDGER_SECONDS * 1000)
  else none

/-! ### Recording -/

structure OpcodeDiff where
  addedOpcodes : List String
  removedOpcodes : List String
  previousTotal : Nat
  newTotal : Nat
  churn : Number

structure FunctionDiff where
  added : List String
  removed : List String
  signatureChanged : List String
  criticalChanges : List String

structure WasmDiff where
  severity : String
  summary : String
  opcodes : OpcodeDiff
  functions : FunctionDiff

structure RecordUpgradeInput (Wasm : Type) where
  contractAddress : String
  newWasmHash : String
  ledgerSequence : Nat
  ledgerCloseTime : Int
  transactionHash : Option String
  upgrader : Option String
  previousWasm : Option Wasm
  newWasm : Option Wasm

structure DiffStats where
  opcodeChurn : Number
  previousInstructions : Nat
  newInstructions : Nat
  addedOpcodes : List String
  removedOpcodes : List String
  addedFunctions : List String
  removedFunctions : List String
  signatureChangedFunctions : List String

structure WasmUpgradeHistory where
  contractAddress : String
  previousHash : Option String
  newHash : String
  ledgerSequence : Nat
  ledgerCloseTime : Int
  transactionHash : Option String
  upgrader : Option String
  upgraderAccountAgeLedgers : Option Int
  changeClassification : Option String
  changeSummary : Option String
  diffStats : Option DiffStats
  criticalFnChanges : List String
  governanceType : GovernanceType
  signerCount : Option Nat
  threshold : Option Int
  timelockSeconds : Option Int
  daoProposalId : Option String
  decentralizationScore : Number
  suspiciousFlags : List String
  isSuspicious : Bool
  riskLevel : RiskLevel

/-- The hash of each contract that is known, and all rows of the history. -/
structure Database where
  contracts : Sql.Table String (Option String)
  history : List WasmUpgradeHistory

/-- Where the database fails in a call. -/
inductive Fault where
  | find
  | gather
  | create
  | update
  deriving DecidableEq

/-- What one call of the function meets. -/
structure Try where
  reads : Reads
  fault : Option Fault

variable {Wasm : Type}

section
variable (diffWasm : Option Wasm → Wasm → WasmDiff)

def statsOf (diff : WasmDiff) : DiffStats where
  opcodeChurn := diff.opcodes.churn
  previousInstructions := diff.opcodes.previousTotal
  newInstructions := diff.opcodes.newTotal
  addedOpcodes := diff.opcodes.addedOpcodes
  removedOpcodes := diff.opcodes.removedOpcodes
  addedFunctions := diff.functions.added
  removedFunctions := diff.functions.removed
  signatureChangedFunctions := diff.functions.signatureChanged

/-- The row of an upgrade. -/
def rowOf (reads : Reads) (input : RecordUpgradeInput Wasm) (previousHash : Option String) : WasmUpgradeHistory :=
  let diff := input.newWasm.map (diffWasm input.previousWasm)
  let criticalFnChanges := diff.elim [] fun diff => diff.functions.criticalChanges
  let governance := analyzeGovernance (gatherGovernanceSignals reads input.upgrader input.transactionHash)
  let age := upgraderAccountAge reads input.upgrader input.ledgerCloseTime
  let suspicious := detectSuspiciousActivity
    { upgradeTime := input.ledgerCloseTime
      upgraderAccountAgeLedgers := age
      recentVulnerability := reads.advisory
      criticalFnChanges
      governanceType := governance.governanceType }
  { contractAddress := input.contractAddress
    previousHash
    newHash := input.newWasmHash
    ledgerSequence := input.ledgerSequence
    ledgerCloseTime := input.ledgerCloseTime
    transactionHash := input.transactionHash
    upgrader := input.upgrader
    upgraderAccountAgeLedgers := age
    changeClassification := diff.map WasmDiff.severity
    changeSummary := diff.map WasmDiff.summary
    diffStats := diff.map statsOf
    criticalFnChanges
    governanceType := governance.governanceType
    signerCount := if governance.signerCount = 0 then none else some governance.signerCount
    threshold := if governance.threshold = 0 then none else some governance.threshold
    timelockSeconds := if governance.timelockSeconds = 0 then none else some governance.timelockSeconds
    daoProposalId := governance.daoProposalId
    decentralizationScore := computeDecentralizationScore governance
    suspiciousFlags := suspicious.flags
    isSuspicious := suspicious.isSuspicious
    riskLevel := suspicious.riskLevel }

/-- One call: the database after it, and the row it returns unless it throws. -/
def recordUpgradeWithIntelligence (db : Database) (input : RecordUpgradeInput Wasm) (met : Try) :
    Database × Except Fault (Option WasmUpgradeHistory) :=
  if met.fault = some .find then (db, .error .find)
  else
    match db.contracts.lookup input.contractAddress with
    | none => (db, .ok none)
    | some previousHash =>
      if previousHash = some input.newWasmHash then (db, .ok none)
      else if met.fault = some .gather then (db, .error .gather)
      else if met.fault = some .create then (db, .error .create)
      else
        let record := rowOf diffWasm met.reads input previousHash
        let created := { db with history := db.history ++ [record] }
        if met.fault = some .update then (created, .error .update)
        else
          ({ created with contracts := db.contracts.updateRow input.contractAddress fun _ => some input.newWasmHash }, .ok (some record))

/-! ### Runs -/

/-- A call with an input: it fails and is made again, until it does not fail. -/
structure Call (Wasm : Type) where
  input : RecordUpgradeInput Wasm
  failed : List (Reads × Fault)
  reads : Reads

def Call.tries (call : Call Wasm) : List Try := call.failed.map (fun found => ⟨found.1, some found.2⟩) ++ [⟨call.reads, none⟩]

def serve (db : Database) (call : Call Wasm) : Database :=
  call.tries.foldl (fun db met => (recordUpgradeWithIntelligence diffWasm db call.input met).1) db

def run (db : Database) (calls : List (Call Wasm)) : Database := calls.foldl (serve diffWasm) db

end

/-- The history of a contract, in the order in which the rows are made. -/
def rowsOf (db : Database) (address : String) : List WasmUpgradeHistory := db.history.filter fun row => row.contractAddress = address

/-- A change of hash. -/
structure Upgrade where
  previousHash : Option String
  newHash : String
  ledgerSequence : Nat

def WasmUpgradeHistory.upgrade (row : WasmUpgradeHistory) : Upgrade := ⟨row.previousHash, row.newHash, row.ledgerSequence⟩

/-- The actual upgrades of a contract that has a hash, for its calls. -/
def upgradesOf : Option String → List (Call Wasm) → List Upgrade
  | _, [] => []
  | hash, call :: rest =>
    (if hash = some call.input.newWasmHash then [] else [⟨hash, call.input.newWasmHash, call.input.ledgerSequence⟩]) ++
      upgradesOf (some call.input.newWasmHash) rest

def Follows (before after : WasmUpgradeHistory) : Prop := after.previousHash = some before.newHash

/-- The rows are a chain from the first hash to the one that the contract has. -/
structure IsHistory (hash : Option String) (calls : List (Call Wasm)) (db : Database) (address : String) : Prop where
  ordered : (rowsOf db address).Pairwise fun a b => a.ledgerSequence ≤ b.ledgerSequence
  chain : (rowsOf db address).IsChain Follows
  differ : ∀ row ∈ rowsOf db address, row.previousHash ≠ some row.newHash
  upgrades : (rowsOf db address).map WasmUpgradeHistory.upgrade = upgradesOf hash calls
  current : db.contracts.lookup address = some (((rowsOf db address).getLast?.map WasmUpgradeHistory.newHash).or hash)

/-- No call for another hash than the one before fails where it writes the contract's hash. -/
def Uncut : Option String → List (Call Wasm) → Prop
  | _, [] => True
  | hash, call :: rest =>
    (.update ∈ call.failed.map Prod.snd → hash = some call.input.newWasmHash) ∧ Uncut (some call.input.newWasmHash) rest

variable {diffWasm : Option Wasm → Wasm → WasmDiff} {db : Database} {input : RecordUpgradeInput Wasm} {met : Try} {call : Call Wasm}
  {calls : List (Call Wasm)} {address : String} {hash : Option String} {rows : List WasmUpgradeHistory}

/-! ### One call of the function -/

/-- What a contract has: its hash and its rows. -/
structure Has (db : Database) (address : String) (hash : Option String) (rows : List WasmUpgradeHistory) : Prop where
  known : db.contracts.lookup address = some hash
  history : rowsOf db address = rows

theorem rowsOf_append (row : WasmUpgradeHistory) :
    rowsOf { db with history := db.history ++ [row] } address = rowsOf db address ++ if row.contractAddress = address then [row] else [] := by
  rw [rowsOf, List.filter_append, List.filter_cons]
  simp only [decide_eq_true_eq, List.filter_nil]
  rfl

/-- Calls for one contract leave what others have. -/
theorem Has.of_other (has : Has db address hash rows) (other : input.contractAddress ≠ address) :
    Has (recordUpgradeWithIntelligence diffWasm db input met).1 address hash rows := by
  have made (row : WasmUpgradeHistory) (own : row.contractAddress = input.contractAddress) :
      rowsOf { db with history := db.history ++ [row] } address = rows := by
    rw [rowsOf_append, own, if_neg other, List.append_nil, has.history]
  rw [recordUpgradeWithIntelligence]
  split
  · exact has
  · cases stored : db.contracts.lookup input.contractAddress with
    | none => exact has
    | some previousHash =>
      dsimp only
      split
      · exact has
      · split
        · exact has
        · split
          · exact has
          · split
            · exact ⟨has.known, made _ rfl⟩
            · refine ⟨?_, made _ rfl⟩
              rw [← has.known]
              exact Sql.Table.lookup_updateRow_ne (Ne.symm other)

/-- What a call may do to its own contract. -/
theorem Has.cases (has : Has db input.contractAddress hash rows) :
    Has (recordUpgradeWithIntelligence diffWasm db input met).1 input.contractAddress hash rows ∧
        (hash = some input.newWasmHash ∨ ∃ fault, met.fault = some fault ∧ fault ≠ .update) ∨
      hash ≠ some input.newWasmHash ∧ met.fault = some .update ∧
        Has (recordUpgradeWithIntelligence diffWasm db input met).1 input.contractAddress hash
          (rows ++ [rowOf diffWasm met.reads input hash]) ∨
      hash ≠ some input.newWasmHash ∧ met.fault = none ∧
        Has (recordUpgradeWithIntelligence diffWasm db input met).1 input.contractAddress (some input.newWasmHash)
          (rows ++ [rowOf diffWasm met.reads input hash]) := by
  have made : rowsOf { db with history := db.history ++ [rowOf diffWasm met.reads input hash] } input.contractAddress =
      rows ++ [rowOf diffWasm met.reads input hash] := by
    rw [rowsOf_append, has.history]
    exact congrArg (rows ++ ·) (if_pos rfl)
  by_cases same : hash = some input.newWasmHash
  · refine .inl ⟨?_, .inl same⟩
    rw [recordUpgradeWithIntelligence, has.known]
    dsimp only
    rw [if_pos same]
    split <;> exact has
  · rw [recordUpgradeWithIntelligence, has.known]
    dsimp only
    rw [if_neg same]
    cases met.fault with
    | none =>
      refine .inr (.inr ⟨same, rfl, ?_, made⟩)
      have updated := @Sql.Table.lookup_updateRow_self _ _ _ db.contracts input.contractAddress fun _ => some input.newWasmHash
      rw [has.known] at updated
      exact updated
    | some fault =>
      cases fault with
      | find => exact .inl ⟨has, .inr ⟨.find, rfl, by decide⟩⟩
      | gather => exact .inl ⟨has, .inr ⟨.gather, rfl, by decide⟩⟩
      | create => exact .inl ⟨has, .inr ⟨.create, rfl, by decide⟩⟩
      | update => exact .inr (.inl ⟨same, rfl, has.known, made⟩)

/-! ### A call and its retries -/

/-- The rows are no chain, or they end at another hash than the contract has: no call mends that. -/
def Broken (hash : Option String) (rows : List WasmUpgradeHistory) : Prop :=
  rows.IsChain Follows → ∃ last ∈ rows.getLast?, hash ≠ some last.newHash

theorem Broken.append (broken : Broken hash rows) {row : WasmUpgradeHistory} (previous : row.previousHash = hash) (later : Option String) :
    Broken later (rows ++ [row]) := by
  intro chain
  obtain ⟨before, -, follows⟩ := List.isChain_append.mp chain
  obtain ⟨last, ends, mismatch⟩ := broken before
  have joined : row.previousHash = some last.newHash := follows last ends row rfl
  exact absurd (previous.symm.trans joined) mismatch

theorem Has.broken (has : Has db address hash rows) (broken : Broken hash rows) :
    ∃ hash rows, Has (recordUpgradeWithIntelligence diffWasm db input met).1 address hash rows ∧ Broken hash rows := by
  by_cases own : input.contractAddress = address
  · subst own
    rcases @Has.cases _ diffWasm db input met hash rows has with ⟨same, -⟩ | ⟨-, -, cut⟩ | ⟨-, -, done⟩
    · exact ⟨_, _, same, broken⟩
    · exact ⟨_, _, cut, broken.append rfl _⟩
    · exact ⟨_, _, done, broken.append rfl _⟩
  · exact ⟨_, _, has.of_other own, broken⟩

theorem Has.broken_foldl (has : Has db address hash rows) (broken : Broken hash rows) (tries : List Try) :
    ∃ hash rows, Has (tries.foldl (fun db met => (recordUpgradeWithIntelligence diffWasm db input met).1) db) address hash rows ∧
      Broken hash rows := by
  induction tries generalizing db hash rows with
  | nil => exact ⟨_, _, has, broken⟩
  | cons met rest ih =>
    obtain ⟨hash, rows, has, broken⟩ := @Has.broken _ diffWasm db input met address hash rows has broken
    exact ih has broken

theorem Has.broken_run (has : Has db address hash rows) (broken : Broken hash rows) (calls : List (Call Wasm)) :
    ∃ hash rows, Has (run diffWasm db calls) address hash rows ∧ Broken hash rows := by
  induction calls generalizing db hash rows with
  | nil => exact ⟨_, _, has, broken⟩
  | cons call rest ih =>
    obtain ⟨hash, rows, has, broken⟩ := @Has.broken_foldl _ diffWasm db call.input address hash rows has broken call.tries
    exact ih has broken

theorem Has.serve_other (has : Has db address hash rows) (other : call.input.contractAddress ≠ address) :
    Has (serve diffWasm db call) address hash rows := by
  have kept (tries : List Try) (db : Database) (has : Has db address hash rows) :
      Has (tries.foldl (fun db met => (recordUpgradeWithIntelligence diffWasm db call.input met).1) db) address hash rows := by
    induction tries generalizing db with
    | nil => exact has
    | cons met rest ih => exact ih _ (has.of_other other)
  exact kept call.tries db has

/-- Tries that fail before the contract's hash is written leave everything. -/
theorem Has.failed (has : Has db input.contractAddress hash rows) {failed : List (Reads × Fault)}
    (uncut : .update ∈ failed.map Prod.snd → hash = some input.newWasmHash) :
    Has ((failed.map fun found => (⟨found.1, some found.2⟩ : Try)).foldl
      (fun db met => (recordUpgradeWithIntelligence diffWasm db input met).1) db) input.contractAddress hash rows := by
  induction failed generalizing db with
  | nil => exact has
  | cons found rest ih =>
    rw [List.map_cons, List.mem_cons] at uncut
    rw [List.map_cons, List.foldl_cons]
    rcases @Has.cases _ diffWasm db input ⟨found.1, some found.2⟩ hash rows has with ⟨same, -⟩ | ⟨changed, cut, -⟩ | ⟨-, impossible, -⟩
    · exact ih same fun later => uncut (.inr later)
    · exact absurd (uncut (.inl (Option.some.inj cut).symm)) changed
    · cases impossible

/-- A call that is not cut writes the row of its upgrade and the hash. -/
theorem Has.serve (has : Has db call.input.contractAddress hash rows)
    (uncut : .update ∈ call.failed.map Prod.snd → hash = some call.input.newWasmHash) :
    Has (serve diffWasm db call) call.input.contractAddress (some call.input.newWasmHash)
      (rows ++ if hash = some call.input.newWasmHash then [] else [rowOf diffWasm call.reads call.input hash]) := by
  have tried := @Has.failed _ diffWasm _ _ _ _ has _ uncut
  rw [UpgradeGovernance.serve, Call.tries, List.foldl_append, List.foldl_cons, List.foldl_nil]
  rcases @Has.cases _ diffWasm _ call.input ⟨call.reads, none⟩ hash rows tried with
    ⟨same, rfl | ⟨fault, impossible, -⟩⟩ | ⟨-, impossible, -⟩ | ⟨changed, -, done⟩
  · rw [if_pos rfl, List.append_nil]
    exact same
  · cases impossible
  · cases impossible
  · rw [if_neg changed]
    exact done

/-- One that is cut breaks the history. -/
theorem Has.cut (has : Has db input.contractAddress hash rows) (changed : hash ≠ some input.newWasmHash) {failed : List (Reads × Fault)}
    (cut : .update ∈ failed.map Prod.snd) :
    ∃ hash rows, Has ((failed.map fun found => (⟨found.1, some found.2⟩ : Try)).foldl
      (fun db met => (recordUpgradeWithIntelligence diffWasm db input met).1) db) input.contractAddress hash rows ∧ Broken hash rows := by
  induction failed generalizing db with
  | nil => cases cut
  | cons found rest ih =>
    rw [List.map_cons, List.mem_cons] at cut
    rw [List.map_cons, List.foldl_cons]
    rcases @Has.cases _ diffWasm db input ⟨found.1, some found.2⟩ hash rows has with
      ⟨same, unchanged | ⟨fault, met, other⟩⟩ | ⟨-, -, written⟩ | ⟨-, impossible, -⟩
    · exact absurd unchanged changed
    · refine ih same (cut.resolve_left fun first => other ?_)
      exact (Option.some.inj met).symm.trans first.symm
    · refine written.broken_foldl (fun _ => ⟨rowOf diffWasm found.1 input hash, ?_, changed⟩) _
      exact List.getLast?_concat
    · cases impossible

/-! ### Upgrades -/

/-- The hash after all calls. -/
def lastHash : Option String → List (Call Wasm) → Option String
  | hash, [] => hash
  | _, call :: rest => lastHash (some call.input.newWasmHash) rest

theorem upgradesOf_unchanged (same : hash = some call.input.newWasmHash) :
    upgradesOf hash (call :: calls) = upgradesOf (some call.input.newWasmHash) calls := by
  rw [upgradesOf, if_pos same, List.nil_append]

theorem upgradesOf_changed (changed : hash ≠ some call.input.newWasmHash) : upgradesOf hash (call :: calls) =
    ⟨hash, call.input.newWasmHash, call.input.ledgerSequence⟩ :: upgradesOf (some call.input.newWasmHash) calls := by
  rw [upgradesOf, if_neg changed, List.singleton_append]

theorem last_upgradesOf (hash : Option String) (calls : List (Call Wasm)) :
    ((upgradesOf hash calls).getLast?.map Upgrade.newHash).or hash = lastHash hash calls := by
  induction calls generalizing hash with
  | nil => exact Option.none_or
  | cons call rest ih =>
    rw [lastHash, ← ih]
    by_cases same : hash = some call.input.newWasmHash
    · rw [upgradesOf_unchanged same, same]
    · rw [upgradesOf_changed same]
      cases ends : (upgradesOf (some call.input.newWasmHash) rest).getLast? with
      | none =>
        rw [List.getLast?_eq_none_iff.mp ends]
        rfl
      | some last =>
        rw [List.getLast?_cons, ends]
        rfl

/-- The first upgrade is from the hash, and each other one from that of the upgrade before. -/
theorem chain_upgradesOf (hash : Option String) (calls : List (Call Wasm)) :
    (∀ first ∈ (upgradesOf hash calls).head?, first.previousHash = hash) ∧
      (upgradesOf hash calls).IsChain fun before after => after.previousHash = some before.newHash := by
  induction calls generalizing hash with
  | nil => exact ⟨fun first member => (nomatch member), List.isChain_nil⟩
  | cons call rest ih =>
    obtain ⟨starts, chain⟩ := ih (some call.input.newWasmHash)
    by_cases same : hash = some call.input.newWasmHash
    · rw [upgradesOf_unchanged same, same]
      exact ⟨starts, chain⟩
    · rw [upgradesOf_changed same]
      refine ⟨fun first member => ?_, List.isChain_cons.mpr ⟨starts, chain⟩⟩
      obtain rfl := Option.some.inj member
      rfl

theorem differ_upgradesOf (hash : Option String) (calls : List (Call Wasm)) :
    ∀ upgrade ∈ upgradesOf hash calls, upgrade.previousHash ≠ some upgrade.newHash := by
  induction calls generalizing hash with
  | nil => exact fun upgrade member => nomatch member
  | cons call rest ih =>
    by_cases same : hash = some call.input.newWasmHash
    · rw [upgradesOf_unchanged same]
      exact ih _
    · rw [upgradesOf_changed same]
      exact List.forall_mem_cons.mpr ⟨same, ih _⟩

theorem ledgers_upgradesOf (hash : Option String) (calls : List (Call Wasm)) :
    ((upgradesOf hash calls).map Upgrade.ledgerSequence).Sublist (calls.map fun call => call.input.ledgerSequence) := by
  induction calls generalizing hash with
  | nil => exact List.Sublist.refl []
  | cons call rest ih =>
    by_cases same : hash = some call.input.newWasmHash
    · rw [upgradesOf_unchanged same]
      exact (ih _).trans (List.sublist_cons_self _ _)
    · rw [upgradesOf_changed same]
      exact (ih _).cons_cons _

/-- Rows that are those of the upgrades are a chain, and end at the last hash. -/
theorem isHistory_of_has (ordered : calls.Pairwise fun a b => a.input.ledgerSequence ≤ b.input.ledgerSequence)
    (has : Has db address (lastHash hash calls) rows) (made : rows.map WasmUpgradeHistory.upgrade = upgradesOf hash calls) :
    IsHistory hash calls db address := by
  obtain ⟨known, history⟩ := has
  have ledgers := (List.pairwise_map.mpr ordered).sublist (ledgers_upgradesOf hash calls)
  have chain := (chain_upgradesOf hash calls).2
  have ends := last_upgradesOf hash calls
  rw [← made] at ledgers chain ends
  rw [List.map_map, List.pairwise_map] at ledgers
  rw [List.getLast?_map, Option.map_map] at ends
  constructor
  · rw [history]
    exact ledgers
  · rw [history]
    exact (List.isChain_map WasmUpgradeHistory.upgrade).mp chain
  · intro row member
    rw [history] at member
    have upgrade : row.upgrade ∈ rows.map WasmUpgradeHistory.upgrade := List.mem_map_of_mem member
    rw [made] at upgrade
    exact differ_upgradesOf hash calls _ upgrade
  · rw [history, made]
  · rw [known, history]
    exact congrArg some ends.symm

/-! ### Runs -/

theorem Has.run_uncut (has : Has db address hash rows) {calls : List (Call Wasm)}
    (uncut : Uncut hash (calls.filter fun call => call.input.contractAddress = address)) :
    ∃ made, Has (run diffWasm db calls) address
        (lastHash hash (calls.filter fun call => call.input.contractAddress = address)) (rows ++ made) ∧
      made.map WasmUpgradeHistory.upgrade = upgradesOf hash (calls.filter fun call => call.input.contractAddress = address) := by
  induction calls generalizing db hash rows with
  | nil =>
    refine ⟨[], ?_, rfl⟩
    rw [List.append_nil]
    exact has
  | cons call rest ih =>
    by_cases own : call.input.contractAddress = address
    · subst own
      rw [List.filter_cons_of_pos (by simp)] at uncut ⊢
      obtain ⟨made, has, upgrades⟩ := ih (has.serve uncut.1) uncut.2
      refine ⟨(if hash = some call.input.newWasmHash then [] else [rowOf diffWasm call.reads call.input hash]) ++ made, ?_, ?_⟩
      · rw [← List.append_assoc]
        exact has
      · rw [List.map_append, upgrades, upgradesOf]
        split <;> rfl
    · rw [List.filter_cons_of_neg (by simpa using own)] at uncut ⊢
      exact ih (has.serve_other own) uncut

theorem Has.run_cut (has : Has db address hash rows) {calls : List (Call Wasm)}
    (cut : ¬ Uncut hash (calls.filter fun call => call.input.contractAddress = address)) :
    ∃ hash rows, Has (run diffWasm db calls) address hash rows ∧ Broken hash rows := by
  induction calls generalizing db hash rows with
  | nil => exact absurd trivial cut
  | cons call rest ih =>
    by_cases own : call.input.contractAddress = address
    · subst own
      rw [List.filter_cons_of_pos (by simp), Uncut] at cut
      by_cases first : .update ∈ call.failed.map Prod.snd → hash = some call.input.newWasmHash
      · exact ih (has.serve first) fun later => cut ⟨first, later⟩
      · push Not at first
        obtain ⟨hash, rows, has, broken⟩ := @Has.cut _ diffWasm _ _ _ _ has first.2 _ first.1
        rw [run, List.foldl_cons, UpgradeGovernance.serve, Call.tries, List.foldl_append]
        obtain ⟨hash, rows, has, broken⟩ := has.broken_foldl broken [⟨call.reads, none⟩]
        exact has.broken_run broken rest
    · rw [List.filter_cons_of_neg (by simpa using own)] at cut
      exact ih (has.serve_other own) cut

theorem not_broken (isHistory : IsHistory hash calls db address) {later : Option String} (has : Has db address later rows) :
    ¬ Broken later rows := by
  intro broken
  have chain := isHistory.chain
  have current := isHistory.current
  rw [has.history] at chain current
  obtain ⟨last, ends, mismatch⟩ := broken chain
  rw [has.known, Option.mem_def.mp ends] at current
  exact mismatch (Option.some.inj current)

/-- The history of a contract is the chain of its upgrades exactly when no call is cut. -/
theorem history_iff (known : db.contracts.lookup address = some hash) (fresh : rowsOf db address = [])
    (ordered : calls.Pairwise fun a b => a.input.ledgerSequence ≤ b.input.ledgerSequence) :
    IsHistory hash (calls.filter fun call => call.input.contractAddress = address) (run diffWasm db calls) address ↔
      Uncut hash (calls.filter fun call => call.input.contractAddress = address) := by
  have has : Has db address hash [] := ⟨known, fresh⟩
  constructor
  · intro isHistory
    by_contra cut
    obtain ⟨later, rows, has, broken⟩ := @Has.run_cut _ diffWasm _ _ _ _ has _ cut
    exact not_broken isHistory has broken
  · intro uncut
    obtain ⟨made, has, upgrades⟩ := @Has.run_uncut _ diffWasm _ _ _ _ has _ uncut
    rw [List.nil_append] at has
    exact isHistory_of_has (ordered.filter _) has upgrades

def unread : Reads := ⟨none, none, none, none, fun _ => 0, none, none⟩

/-- A diff that finds nothing. -/
def nothingNew (_ : Option Unit) (_ : Unit) : WasmDiff :=
  ⟨"minor", "MINOR change: ~0% of instructions modified; no function-level or instruction-type changes detected.",
    ⟨[], [], 0, 0, .finite 0⟩, ⟨[], [], [], []⟩⟩

/-- A pool, deployed with a first version. -/
def deployed : Database := ⟨(∅ : Sql.Table String (Option String)).insert "POOL" (some "v1"), []⟩

def upgradeTo (newWasmHash : String) (ledgerSequence : Nat) (failed : List (Reads × Fault)) : Call Unit :=
  ⟨⟨"POOL", newWasmHash, ledgerSequence, 0, none, none, none, none⟩, failed, unread⟩

theorem history_iff_retried : IsHistory (some "v1")
    ([upgradeTo "v2" 10 [(unread, .create)], upgradeTo "v2" 10 [], upgradeTo "v1" 12 []].filter
      fun call => call.input.contractAddress = "POOL")
    (run nothingNew deployed [upgradeTo "v2" 10 [(unread, .create)], upgradeTo "v2" 10 [], upgradeTo "v1" 12 []]) "POOL" := by
  refine (history_iff (AList.lookup_insert _) rfl ?_).mpr ?_
  · decide
  · refine ⟨fun cut => ?_, fun cut => ?_, fun cut => ?_, trivial⟩
    · cases List.mem_singleton.mp cut
    · cases cut
    · cases cut

/-- The first call makes the row and fails before the hash is written; made again it makes the row again. -/
theorem retry_repeats_row :
    ¬ IsHistory (some "v1") [upgradeTo "v2" 10 [(unread, .update)]]
      (run nothingNew deployed [upgradeTo "v2" 10 [(unread, .update)]]) "POOL" := by
  intro isHistory
  have rows := congrArg List.length isHistory.upgrades
  rw [List.length_map] at rows
  cases rows

end Octraban.UpgradeGovernance
