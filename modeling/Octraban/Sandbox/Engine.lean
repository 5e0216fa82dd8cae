import Octraban.Sandbox.Token

/-! sandbox/runtime.ts: the operations of `SandboxEngine` on one session. The live runtime is
kept in memory, beside the document of the session and the rows of its accounts and contracts. -/
namespace Octraban.SandboxEngine
open Transition System JavaScript

structure AccountState where
  publicKey : String
  label : Option String
  balance : ℚ
  sequenceNumber : Int
  isPreFunded : Bool

structure ContractState where
  contractId : String
  name : Option String
  wasmHash : String
  deployerAccount : Option String
  sourceContract : Option String
  templateId : Option String
  deployedAt : Int
  lastCalledAt : Option Int
  totalCalls : Int
  abi : Value
  state : Value

/-- Times are in milliseconds. -/
structure RuntimeBlock where
  ledgerSequence : Int
  ledgerTimestamp : Int
  nextCallIndex : Int
  accounts : OrderedMap String AccountState
  contracts : OrderedMap String ContractState

structure RuntimeDocument where
  genesis : RuntimeBlock
  runtime : RuntimeBlock

structure CallOutcome where
  result : Value
  error : Option String
  events : List Value
  stateAfter : Value

structure SandboxCall where
  contractId : String
  functionName : String
  args : Value
  sourceAccount : Option String
  success : Bool
  result : Value
  error : Option String
  events : List Value
  callIndex : Int

/-- The session as `activeSessions` has it. -/
structure RuntimeBundle where
  status : String
  document : RuntimeDocument

/-- The row of the session. -/
structure Session where
  status : String
  state : RuntimeDocument
  ledgerSequence : Int
  ledgerTimestamp : Int

/-- The rows of `sandboxAccount` and `sandboxContract`, under their unique keys. -/
structure Rows where
  accounts : String → Option AccountState
  contracts : String → Option ContractState

structure State where
  memory : Option RuntimeBundle
  session : Session
  rows : Rows
  calls : List SandboxCall
  snapshots : List (String × RuntimeBlock)

/-- What is derived from the seed of the session, and what contracts compute. -/
structure Platform where
  makePublicKey : Nat → String
  makeContractId : Nat → String → String
  wasmHash : String → String
  defaultAbiForTemplate : Option String → Value
  templateStateForDeploy : Option String → Option Value → Value
  executeTemplateFunction : ContractState → String → Value → Option String → Option CallOutcome

structure CreateAccountInput where
  label : Option String
  balance : ℚ
  isPreFunded : Bool

structure DeployInput where
  wasm : Option String
  name : Option String
  deployer : Option String
  salt : Option String
  initArgs : Option Value
  templateId : Option String
  sourceContract : Option String
  abi : Option Value

structure CallInput where
  contractId : String
  functionName : String
  args : Value
  sourceAccount : Option String

/-- The operations that begin with `getBundleOrThrow`. -/
inductive LiveOp where
  | pauseSession
  | resetSession
  | snapshotSession (id : String)
  | restoreSnapshot (snapshotId : String)
  | advanceSession (ledgers seconds : Int)
  | createAccount (input : CreateAccountInput)
  | fundAccount (publicKey : String) (amount : ℚ)
  | deploy (input : DeployInput) (now : Int)
  | call (input : CallInput) (now : Int)
  | importSession (runtime : Option RuntimeBlock)

/-- A restart of the process empties `activeSessions`. -/
inductive Op where
  | getSession
  | destroySession
  | live (op : LiveOp)
  | restart

/-- A write may be carried out and its answer lost. -/
inductive Answer where
  | done
  | refused
  | lost
  deriving DecidableEq

/-- The answers of the database to an operation: to a read before any change, to its writes in
their order, and to the counts of `getSession`. -/
structure Answers where
  found : Bool
  write : Nat → Answer
  counted : Bool

structure SessionSummary where
  status : String
  ledgerSequence : Int
  ledgerTimestamp : Int
  accountCount : Nat
  contractCount : Nat
  snapshotCount : Nat
  callCount : Nat

inductive Output where
  | summary (summary : SessionSummary)
  | account (account : AccountState)
  | contract (contract : ContractState)
  | called (outcome : CallOutcome)
  | snapshot (id : String)
  | destroyed
  | restarted

/-- An effect on the database; nothing when it breaks a constraint or finds no row. -/
abbrev Write := State → Option State

/-- What an operation does with the session in memory: it throws, throws after a change in
memory, only appends a row, or changes the memory, then writes, then returns (the summary of
the session when it names nothing else). -/
inductive Plan where
  | throws (error : String)
  | breaks (bundle : RuntimeBundle) (error : String)
  | appends (row : State → State) (output : Output)
  | commits (bundle : RuntimeBundle) (writes : List Write) (output : Option Output)

/-! ### Writes -/

def updateStatus (status : String) : Write := fun s => some { s with session := { s.session with status := status } }

def persistBundle (bundle : RuntimeBundle) : Write := fun s => some { s with session := { s.session with
  state := bundle.document
  ledgerSequence := bundle.document.runtime.ledgerSequence
  ledgerTimestamp := bundle.document.runtime.ledgerTimestamp } }

def createAccountRow (account : AccountState) : Write := fun s =>
  match s.rows.accounts account.publicKey with
  | some _ => none
  | none => some { s with rows := { s.rows with
      accounts := Function.update s.rows.accounts account.publicKey (some account) } }

def updateBalance (publicKey : String) (balance : ℚ) : Write := fun s =>
  (s.rows.accounts publicKey).map fun row => { s with rows := { s.rows with
    accounts := Function.update s.rows.accounts publicKey (some { row with balance := balance }) } }

def createContractRow (contract : ContractState) : Write := fun s =>
  match s.rows.contracts contract.contractId with
  | some _ => none
  | none => some { s with rows := { s.rows with
      contracts := Function.update s.rows.contracts contract.contractId (some contract) } }

/-- The transaction of a call: the row of the contract and the row of the call. -/
def updateCalled (contractId : String) (contract : ContractState) (call : SandboxCall) : Write := fun s =>
  (s.rows.contracts contractId).map fun row => { s with
    calls := s.calls ++ [call]
    rows := { s.rows with contracts := Function.update s.rows.contracts contractId (some { row with
      state := contract.state
      lastCalledAt := contract.lastCalledAt
      totalCalls := contract.totalCalls }) } }

/-- The first of some records with a key. -/
def rowOf {R : Type} (key : R → String) (records : List R) (k : String) : Option R := records.find? fun r => key r = k

def rewriteLiveRows (accounts : List AccountState) (contracts : List ContractState) : Write := fun s =>
  if (accounts.map AccountState.publicKey).Nodup ∧ (contracts.map ContractState.contractId).Nodup then
    some { s with rows := ⟨rowOf AccountState.publicKey accounts, rowOf ContractState.contractId contracts⟩ }
  else none

/-! ### Operations -/

def RuntimeBundle.withRuntime (bundle : RuntimeBundle) (runtime : RuntimeBlock) : RuntimeBundle :=
  { bundle with document := { bundle.document with runtime := runtime } }

/-- `Object.values` -/
def objectValues {V : Type} (object : OrderedMap String V) : List V := (ownEntries object).map Prod.snd

def pauseSession (bundle : RuntimeBundle) : Plan :=
  let bundle := { bundle with status := "paused" }
  .commits bundle [updateStatus "paused", persistBundle bundle] none

def resetSession (bundle : RuntimeBundle) : Plan :=
  let bundle := bundle.withRuntime bundle.document.genesis
  .commits bundle [rewriteLiveRows (objectValues bundle.document.runtime.accounts) [], persistBundle bundle] none

def snapshotSession (bundle : RuntimeBundle) (id : String) : Plan :=
  .appends (fun s => { s with snapshots := s.snapshots ++ [(id, bundle.document.runtime)] }) (.snapshot id)

/-- The runtime is replaced, and the rows are written anew from it. -/
def replaceRuntime (bundle : RuntimeBundle) (runtime : RuntimeBlock) : Plan :=
  let bundle := bundle.withRuntime runtime
  .commits bundle [rewriteLiveRows (objectValues runtime.accounts) (objectValues runtime.contracts),
    persistBundle bundle] none

def restoreSnapshot (s : State) (bundle : RuntimeBundle) (found : Bool) (snapshotId : String) : Plan :=
  if found then
    match s.snapshots.lookup snapshotId with
    | none => .throws "Snapshot not found"
    | some state => replaceRuntime bundle state
  else .throws "Database"

/-- The last millisecond that is a date. -/
def maxTime : Int := 8640000000000000

def advanceSession (bundle : RuntimeBundle) (ledgers seconds : Int) : Plan :=
  let runtime := { bundle.document.runtime with ledgerSequence := bundle.document.runtime.ledgerSequence + ledgers }
  let time := runtime.ledgerTimestamp + seconds * 1000
  if -maxTime ≤ time ∧ time ≤ maxTime then
    let bundle := bundle.withRuntime { runtime with ledgerTimestamp := time }
    .commits bundle [persistBundle bundle] none
  else .breaks (bundle.withRuntime runtime) "Invalid time value"

def createAccount (platform : Platform) (bundle : RuntimeBundle) (input : CreateAccountInput) : Plan :=
  let runtime := bundle.document.runtime
  let publicKey := platform.makePublicKey (runtime.accounts.keys.length + 1)
  let account : AccountState := ⟨publicKey, input.label, input.balance, 0, input.isPreFunded⟩
  let bundle := bundle.withRuntime { runtime with accounts := runtime.accounts.set publicKey account }
  .commits bundle [createAccountRow account, persistBundle bundle] (some (.account account))

def fundAccount (bundle : RuntimeBundle) (publicKey : String) (amount : ℚ) : Plan :=
  let runtime := bundle.document.runtime
  match runtime.accounts.get publicKey with
  | none => .throws "Account not found"
  | some account =>
    let account := { account with balance := Token.decimalPlus account.balance amount }
    let bundle := bundle.withRuntime { runtime with accounts := runtime.accounts.set publicKey account }
    .commits bundle [updateBalance publicKey account.balance, persistBundle bundle] (some (.account account))

def deploy (platform : Platform) (bundle : RuntimeBundle) (input : DeployInput) (now : Int) : Plan :=
  let runtime := bundle.document.runtime
  let salt := ((input.salt.orElse fun _ => input.name).orElse fun _ => input.templateId).getD "contract"
  let contractId := platform.makeContractId (runtime.contracts.keys.length + 1) salt
  let contract : ContractState := {
    contractId := contractId
    name := input.name
    wasmHash := platform.wasmHash (input.wasm.getD "")
    deployerAccount := input.deployer.orElse fun _ => (ownEntries runtime.accounts).head?.map Prod.fst
    sourceContract := input.sourceContract
    templateId := input.templateId
    deployedAt := now
    lastCalledAt := none
    totalCalls := 0
    abi := input.abi.getD (platform.defaultAbiForTemplate input.templateId)
    state := platform.templateStateForDeploy input.templateId input.initArgs }
  let bundle := bundle.withRuntime { runtime with contracts := runtime.contracts.set contractId contract }
  .commits bundle [createContractRow contract, persistBundle bundle] (some (.contract contract))

def call (platform : Platform) (bundle : RuntimeBundle) (input : CallInput) (now : Int) : Plan :=
  let runtime := bundle.document.runtime
  match runtime.contracts.get input.contractId with
  | none => .throws "Contract not found"
  | some contract =>
    let args := Token.normalizeArgs input.args
    let sourceAccount := input.sourceAccount.orElse fun _ => contract.deployerAccount
    match platform.executeTemplateFunction contract input.functionName args sourceAccount with
    | none => .throws "Error"
    | some outcome =>
      let logged (callIndex : Int) : SandboxCall := ⟨input.contractId, input.functionName, args, sourceAccount,
        outcome.error.isNone, if outcome.error.isNone then outcome.result else .null, outcome.error, outcome.events,
        callIndex⟩
      if outcome.error.isNone then
        let contract := { contract with
          state := outcome.stateAfter
          lastCalledAt := some now
          totalCalls := contract.totalCalls + 1 }
        let bundle := bundle.withRuntime { runtime with
          contracts := runtime.contracts.set input.contractId contract
          nextCallIndex := runtime.nextCallIndex + 1 }
        .commits bundle [updateCalled input.contractId contract (logged (runtime.nextCallIndex + 1)),
          persistBundle bundle] (some (.called outcome))
      else .appends (fun s => { s with calls := s.calls ++ [logged runtime.nextCallIndex] }) (.called outcome)

def importSession (bundle : RuntimeBundle) (runtime : Option RuntimeBlock) : Plan :=
  replaceRuntime bundle (runtime.getD bundle.document.runtime)

def plan (platform : Platform) (s : State) (bundle : RuntimeBundle) (found : Bool) : LiveOp → Plan
  | .pauseSession => pauseSession bundle
  | .resetSession => resetSession bundle
  | .snapshotSession id => snapshotSession bundle id
  | .restoreSnapshot snapshotId => restoreSnapshot s bundle found snapshotId
  | .advanceSession ledgers seconds => advanceSession bundle ledgers seconds
  | .createAccount input => createAccount platform bundle input
  | .fundAccount publicKey amount => fundAccount bundle publicKey amount
  | .deploy input now => deploy platform bundle input now
  | .call input now => call platform bundle input now
  | .importSession runtime => importSession bundle runtime

/-! ### Execution -/

/-- Writes one after the other up to the first that fails. -/
def perform (answer : Nat → Answer) : List Write → State → State × Bool
  | [], s => (s, true)
  | write :: rest, s =>
    match write s, answer 0 with
    | some t, .done => perform (fun i => answer (i + 1)) rest t
    | some t, .lost => (t, false)
    | _, _ => (s, false)

def summarizeSession (s : State) (bundle : RuntimeBundle) : SessionSummary where
  status := bundle.status
  ledgerSequence := bundle.document.runtime.ledgerSequence
  ledgerTimestamp := bundle.document.runtime.ledgerTimestamp
  accountCount := bundle.document.runtime.accounts.keys.length
  contractCount := bundle.document.runtime.contracts.keys.length
  snapshotCount := s.snapshots.length
  callCount := s.calls.length

/-- A session that is not in memory is read from the database, whatever its status. -/
def getSession (s : State) (answers : Answers) : State × Except String Output :=
  match s.memory, answers.found with
  | none, false => (s, .error "Database")
  | memory, _ =>
    let bundle := memory.getD ⟨s.session.status, s.session.state⟩
    let s := { s with memory := some bundle }
    (s, if answers.counted then .ok (.summary (summarizeSession s bundle)) else .error "Database")

def execute (s : State) (answers : Answers) : Plan → State × Except String Output
  | .throws error => (s, .error error)
  | .breaks bundle error => ({ s with memory := some bundle }, .error error)
  | .appends row output =>
    match perform answers.write [fun s => some (row s)] s with
    | (t, true) => (t, .ok output)
    | (t, false) => (t, .error "Database")
  | .commits bundle writes output =>
    match perform answers.write writes { s with memory := some bundle } with
    | (t, true) =>
      match output with
      | some output => (t, .ok output)
      | none => getSession t answers
    | (t, false) => (t, .error "Database")

def destroySession (s : State) (answers : Answers) : State × Except String Output :=
  match perform answers.write [updateStatus "destroyed"] s with
  | (t, true) => ({ t with memory := none }, .ok .destroyed)
  | (t, false) => (t, .error "Database")

/-- `getBundleOrThrow` -/
def notActive : String := "Session is not active. This sandbox backend only keeps live VM state in memory."

def operate (platform : Platform) (s : State) (answers : Answers) : Op → State × Except String Output
  | .getSession => getSession s answers
  | .destroySession => destroySession s answers
  | .live op =>
    match s.memory with
    | none => (s, .error notActive)
    | some bundle => execute s answers (plan platform s bundle answers.found op)
  | .restart => ({ s with memory := none }, .ok .restarted)

/-- The block files each record under its own key. -/
structure Filed (block : RuntimeBlock) : Prop where
  accounts : ∀ key account, block.accounts.get key = some account → account.publicKey = key
  contracts : ∀ key contract, block.contracts.get key = some contract → contract.contractId = key

/-- The block of a new session has no contracts. -/
structure Genesis (block : RuntimeBlock) : Prop where
  filed : Filed block
  contracts : block.contracts.entries = []

/-- What `createSession` leaves. -/
def created (genesis : RuntimeBlock) : State where
  memory := some ⟨"active", genesis, genesis⟩
  session := ⟨"active", ⟨genesis, genesis⟩, genesis.ledgerSequence, genesis.ledgerTimestamp⟩
  rows := ⟨genesis.accounts.get, genesis.contracts.get⟩
  calls := []
  snapshots := []

def engine (platform : Platform) : System State (Op × Answers) where
  initial s := ∃ genesis, Genesis genesis ∧ s = created genesis
  step s a := some (operate platform s a.2 a.1).1

end Octraban.SandboxEngine
