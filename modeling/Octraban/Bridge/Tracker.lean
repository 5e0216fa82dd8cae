import Octraban.Core.JavaScript
import Octraban.Core.Transition

/-! resolver.ts and finality.ts derive the status of a bridge transaction each in its own way
and write it to one row. -/
namespace Octraban.BridgeTracker
open JavaScript

inductive Chain where
  | ethereum
  | solana
  | cosmos
  | bsc
  | polygon
  | avalanche
  | arbitrum
  | optimism
  deriving DecidableEq

inductive BridgeStatus where
  | pending
  | detected
  | bridging
  | completed
  | failed
  | reorged
  deriving DecidableEq

inductive TxStatus where
  | completed
  | pending
  | failed
  deriving DecidableEq

def TxStatus.bridge : TxStatus → BridgeStatus
  | completed => .completed
  | pending => .pending
  | failed => .failed

structure TxStatusResult where
  confirmations : Nat
  status : TxStatus
  blockNumber : Option Int := none
  blockHash : Option String := none

structure ChainProviderConfig where
  confirmationBlocks : Nat
  blockTimeSeconds : Number

def CHAIN_PROVIDERS : Chain → ChainProviderConfig
  | .ethereum => ⟨12, .finite 12⟩
  | .solana => ⟨32, roundRat (4 / 10)⟩
  | .cosmos => ⟨1, .finite 6⟩
  | .bsc => ⟨15, .finite 3⟩
  | .polygon => ⟨128, .finite 2⟩
  | .avalanche => ⟨6, .finite 2⟩
  | .arbitrum => ⟨12, .finite (1 / 4)⟩
  | .optimism => ⟨12, .finite 2⟩

def BRIDGE_SCANNER_URLS : Chain → Option String
  | .ethereum => some "https://etherscan.io/tx/"
  | .solana => some "https://solscan.io/tx/"
  | .cosmos => none
  | .bsc => some "https://bscscan.com/tx/"
  | .polygon => some "https://polygonscan.com/tx/"
  | .avalanche => some "https://snowtrace.io/tx/"
  | .arbitrum => some "https://arbiscan.io/tx/"
  | .optimism => some "https://optimistic.etherscan.io/tx/"

/-- Whether `getChainProvider` returns. -/
def hasProvider : Chain → Bool
  | .ethereum | .solana | .cosmos | .bsc => true
  | .polygon | .avalanche | .arbitrum | .optimism => false

structure BridgeEvent where
  transactionHash : String
  sourceChain : Chain
  destinationChain : Chain
  asset : String
  amount : String
  sender : String
  recipient : String
  protocol : String
  fee : Option String

structure Metadata where
  sourceBlockNumber : Option Int := none
  destinationBlockNumber : Option Int := none
  sourceConfirmations : Option Nat := none
  destinationConfirmations : Option Nat := none
  sourceStatus : Option BridgeStatus := none
  destinationStatus : Option BridgeStatus := none
  destinationTxHash : Option String := none
  reorgDetected : Option Bool := none
  blocksUntilFinality : Option Nat := none
  progressPercent : Option Number := none

/-- A row of `bridgeTransaction`. -/
structure BridgeTransaction where
  transactionHash : String
  sourceChain : Chain
  destinationChain : Chain
  asset : String
  amount : String
  sender : String
  recipient : String
  protocol : String
  status : BridgeStatus
  confirmations : Nat
  requiredConfirmations : Nat
  estimatedArrivalAt : Option Number
  bridgeFee : Option String
  sourceTxUrl : Option String
  destinationTxUrl : Option String
  metadata : Metadata

structure ResolvedTransaction where
  transactionHash : String
  sourceChain : Chain
  destinationChain : Chain
  sourceStatus : BridgeStatus
  destinationStatus : BridgeStatus
  sourceConfirmations : Nat
  destinationConfirmations : Nat
  sourceBlockNumber : Option Int
  destinationBlockNumber : Option Int
  sourceTxHash : String
  destinationTxHash : Option String

structure FinalityInfo where
  status : BridgeStatus
  confirmations : Nat
  requiredConfirmations : Nat
  sourceBlockNumber : Option Int
  destinationBlockNumber : Option Int
  sourceTxHash : String
  reorgDetected : Bool
  blocksUntilFinality : Nat
  progressPercent : Number
  estimatedArrivalAt : Number

/-- What the environment answers during one update: the providers, nothing for a rejection, the
clock, and whether the database takes the write. `arrivals` is the history kept for the route. -/
structure Answers where
  source : Option TxStatusResult
  destination : Option TxStatusResult
  currentBlock : Option Int
  arrivals : List Number
  now : Int
  saves : Bool

def unanswered : TxStatusResult := ⟨0, .pending, none, none⟩

def findCorrelatingTx (_ : BridgeEvent) : Option String := none

/-- The destination side of a transfer that its source has completed; what throws here is caught. -/
def resolveDestination (bridgeTx : BridgeEvent) (answers : Answers) (sourceResult : TxStatusResult) :
    Option String × TxStatusResult :=
  if sourceResult.status = .completed ∧ hasProvider bridgeTx.destinationChain then
    match findCorrelatingTx bridgeTx with
    | some correlatingTx => (some correlatingTx, answers.destination.getD unanswered)
    | none => (none, unanswered)
  else (none, unanswered)

/-- Throws, as nothing, where the source chain has no provider. The `overallStatus` that the
source works out beside it goes nowhere. -/
def resolveBridgeTransaction (bridgeTx : BridgeEvent) (answers : Answers) : Option ResolvedTransaction :=
  if hasProvider bridgeTx.sourceChain then
    let sourceResult := answers.source.getD unanswered
    let (destTxHash, destResult) := resolveDestination bridgeTx answers sourceResult
    some {
      transactionHash := bridgeTx.transactionHash
      sourceChain := bridgeTx.sourceChain
      destinationChain := bridgeTx.destinationChain
      sourceStatus := sourceResult.status.bridge
      destinationStatus := destResult.status.bridge
      sourceConfirmations := sourceResult.confirmations
      destinationConfirmations := destResult.confirmations
      sourceBlockNumber := sourceResult.blockNumber
      destinationBlockNumber := destResult.blockNumber
      sourceTxHash := bridgeTx.transactionHash
      destinationTxHash := destTxHash }
  else none

/-- The time value of `new Date(now + totalSeconds * 1000)`, which keeps whole milliseconds. -/
def dateAfter (now : Int) (totalSeconds : Number) : Number :=
  match (Number.finite now).add (totalSeconds.mul (.finite 1000)) with
  | .finite time => .finite (time.num.tdiv time.den)
  | _ => .nan

def estimateArrival (resolved : ResolvedTransaction) (sourceCfg destCfg : ChainProviderConfig) (now : Int) : Number :=
  if resolved.destinationStatus = .completed then .finite now
  else
    let remainingSourceConfirmations := sourceCfg.confirmationBlocks - resolved.sourceConfirmations
    let sourceTimeLeft := (Number.finite remainingSourceConfirmations).mul sourceCfg.blockTimeSeconds
    dateAfter now ((sourceTimeLeft.add (.finite 30)).add destCfg.blockTimeSeconds)

/-- The status that `storeBridgeTransaction` stores. -/
def storedStatus (resolved : ResolvedTransaction) : BridgeStatus :=
  if resolved.sourceStatus = .failed ∨ resolved.destinationStatus = .failed then .failed
  else if resolved.destinationStatus = .completed then .completed
  else if resolved.sourceStatus = .pending then .pending
  else .bridging

/-- An error of the database is logged and the row left as it was. -/
def storeBridgeTransaction (bridgeEvent : BridgeEvent) (resolved : ResolvedTransaction) (answers : Answers)
    (row : Option BridgeTransaction) : Option BridgeTransaction :=
  let cfg := CHAIN_PROVIDERS bridgeEvent.sourceChain
  let destCfg := CHAIN_PROVIDERS bridgeEvent.destinationChain
  let estimatedArrivalAt := some (estimateArrival resolved cfg destCfg answers.now)
  let metadata : Metadata := {
    sourceBlockNumber := resolved.sourceBlockNumber
    destinationBlockNumber := resolved.destinationBlockNumber
    sourceConfirmations := some resolved.sourceConfirmations
    destinationConfirmations := some resolved.destinationConfirmations
    sourceStatus := some resolved.sourceStatus
    destinationStatus := some resolved.destinationStatus
    destinationTxHash := resolved.destinationTxHash }
  if answers.saves then
    match row with
    | some row => some { row with
        status := storedStatus resolved
        confirmations := resolved.sourceConfirmations
        requiredConfirmations := cfg.confirmationBlocks
        destinationTxUrl :=
          match resolved.destinationTxHash.filter (· ≠ ""), BRIDGE_SCANNER_URLS bridgeEvent.destinationChain with
          | some destinationTxHash, some destUrl => some (destUrl ++ destinationTxHash)
          | _, _ => row.destinationTxUrl
        estimatedArrivalAt := estimatedArrivalAt
        metadata := metadata }
    | none => some {
        transactionHash := bridgeEvent.transactionHash
        sourceChain := bridgeEvent.sourceChain
        destinationChain := bridgeEvent.destinationChain
        asset := bridgeEvent.asset
        amount := bridgeEvent.amount
        sender := bridgeEvent.sender
        recipient := bridgeEvent.recipient
        protocol := bridgeEvent.protocol
        status := storedStatus resolved
        confirmations := resolved.sourceConfirmations
        requiredConfirmations := cfg.confirmationBlocks
        bridgeFee := some ((bridgeEvent.fee.filter (· ≠ "")).getD "0")
        sourceTxUrl := (BRIDGE_SCANNER_URLS bridgeEvent.sourceChain).map (· ++ bridgeEvent.transactionHash)
        destinationTxUrl := none
        estimatedArrivalAt := estimatedArrivalAt
        metadata := metadata }
  else row

/-- `result.destinationTxHash` of the row's metadata; the empty text counts as none. -/
def findDestinationTxHash (row : Option BridgeTransaction) : Option String :=
  (row.bind fun row => row.metadata.destinationTxHash).filter (· ≠ "")

/-- No path of the source reports a reorg. -/
def detectReorg (currentBlock : Option Int) (blockNumber : Int) : Bool :=
  match currentBlock with
  | none => false
  | some currentBlock => if currentBlock - blockNumber > 20 then false else false

def progressPercent (confirmations requiredConfirmations : Nat) : Number :=
  (Number.finite 100).min
    (((Number.finite confirmations).div (.finite requiredConfirmations)).mul (.finite 100)).round

def estimateArrivalTime (sourceChain destinationChain : Chain) (currentConfirmations requiredConfirmations : Nat)
    (answers : Answers) : Number :=
  if requiredConfirmations ≤ currentConfirmations then .finite answers.now
  else
    let remaining := requiredConfirmations - currentConfirmations
    let avgBridgeRelay :=
      if 0 < answers.arrivals.length then
        (answers.arrivals.foldl Number.add (.finite 0)).div (.finite answers.arrivals.length)
      else .finite 30
    let sourceTime := (Number.finite remaining).mul (CHAIN_PROVIDERS sourceChain).blockTimeSeconds
    dateAfter answers.now ((sourceTime.add avgBridgeRelay).add (CHAIN_PROVIDERS destinationChain).blockTimeSeconds)

/-- The status of `checkFinality`; nothing where a chain has no provider. -/
def finalityStatus (destinationChain : Chain) (row : Option BridgeTransaction) (answers : Answers)
    (sourceResult : TxStatusResult) (progress : Number) (reorgDetected : Bool) : Option BridgeStatus :=
  if reorgDetected then some .reorged
  else if sourceResult.status = .failed then some .failed
  else if sourceResult.status = .pending then some .pending
  else if progress.lt (.finite 100) then some .detected
  else if (Number.finite 100).le progress ∧ sourceResult.status = .completed then
    match findDestinationTxHash row with
    | some _ =>
      if hasProvider destinationChain then
        match (answers.destination.getD unanswered).status with
        | .completed => some .completed
        | .failed => some .failed
        | .pending => some .bridging
      else none
    | none => some .bridging
  else some .pending

def checkFinality (txHash : String) (sourceChain destinationChain : Chain) (row : Option BridgeTransaction)
    (answers : Answers) : Option FinalityInfo :=
  if hasProvider sourceChain then
    let sourceResult := answers.source.getD unanswered
    let requiredConfirmations := (CHAIN_PROVIDERS sourceChain).confirmationBlocks
    let confirmations := sourceResult.confirmations
    let progress := progressPercent confirmations requiredConfirmations
    let reorgDetected := match sourceResult.blockNumber.filter (· ≠ 0), sourceResult.blockHash.filter (· ≠ "") with
      | some blockNumber, some _ => detectReorg answers.currentBlock blockNumber
      | _, _ => false
    (finalityStatus destinationChain row answers sourceResult progress reorgDetected).map fun status => {
      status := status
      confirmations := confirmations
      requiredConfirmations := requiredConfirmations
      sourceBlockNumber := sourceResult.blockNumber
      destinationBlockNumber := none
      sourceTxHash := txHash
      reorgDetected := reorgDetected
      blocksUntilFinality := requiredConfirmations - confirmations
      progressPercent := progress
      estimatedArrivalAt :=
        estimateArrivalTime sourceChain destinationChain confirmations requiredConfirmations answers }
  else none

/-- Throws without a row, and on an error of the database. -/
def updateTransactionFinality (finality : FinalityInfo) (answers : Answers) (row : Option BridgeTransaction) :
    Option BridgeTransaction :=
  if answers.saves then
    row.map fun row => { row with
      status := finality.status
      confirmations := finality.confirmations
      estimatedArrivalAt := some finality.estimatedArrivalAt
      metadata := {
        reorgDetected := some finality.reorgDetected
        blocksUntilFinality := some finality.blocksUntilFinality
        progressPercent := some finality.progressPercent
        sourceBlockNumber := finality.sourceBlockNumber
        destinationBlockNumber := finality.destinationBlockNumber } }
  else row

/-- The two jobs, each with what it is answered. -/
inductive Update where
  | resolve (answers : Answers)
  | finality (answers : Answers)

def Update.answers : Update → Answers
  | resolve answers | finality answers => answers

def Update.sourceStatus (u : Update) : TxStatus := (u.answers.source.getD unanswered).status

def perform (event : BridgeEvent) (row : Option BridgeTransaction) : Update → Option BridgeTransaction
  | .resolve answers => (resolveBridgeTransaction event answers).elim row fun resolved =>
      storeBridgeTransaction event resolved answers row
  | .finality answers =>
      (checkFinality event.transactionHash event.sourceChain event.destinationChain row answers).elim row
        fun finality => updateTransactionFinality finality answers row

/-- The row of one transaction, after all that it has been. -/
structure History where
  row : Option BridgeTransaction
  past : List BridgeTransaction

def system (event : BridgeEvent) : Transition.System History Update where
  initial h := h.past = []
  step h u := some { row := perform event h.row u, past := h.past ++ h.row.toList }

def IsOpen (status : BridgeStatus) : Prop := status = .pending ∨ status = .detected ∨ status = .bridging

structure Keeps (old new : BridgeTransaction) : Prop where
  hash : ∀ hash, findDestinationTxHash (some old) = some hash → findDestinationTxHash (some new) = some hash
  ended : old.status = .completed ∨ old.status = .failed → ¬ IsOpen new.status

/-- The row keeps what each of its past states had. -/
def Kept (h : History) : Prop := ∀ old ∈ h.past, ∀ new ∈ h.row, Keeps old new

/-- The status that resolving hands to the database. -/
def resolvedStatus (event : BridgeEvent) (answers : Answers) : Option BridgeStatus :=
  (resolveBridgeTransaction event answers).map storedStatus

def finalStatus (event : BridgeEvent) (row : Option BridgeTransaction) (answers : Answers) : Option BridgeStatus :=
  (checkFinality event.transactionHash event.sourceChain event.destinationChain row answers).map FinalityInfo.status

def IsFinal (event : BridgeEvent) (answers : Answers) : Prop :=
  (answers.source.getD unanswered).status = .completed ∧
    (CHAIN_PROVIDERS event.sourceChain).confirmationBlocks ≤ (answers.source.getD unanswered).confirmations

/-- A transfer is not completed on its source chain, or it is final there and nothing more is
known of its destination. -/
def Undecided (event : BridgeEvent) (row : Option BridgeTransaction) (answers : Answers) : Prop :=
  hasProvider event.sourceChain = true → (answers.source.getD unanswered).status = .completed →
    IsFinal event answers ∧ (findDestinationTxHash row ≠ none →
      hasProvider event.destinationChain = true ∧ (answers.destination.getD unanswered).status = .pending)

/-- The update gets to its write, and the database takes it. -/
def Writes (event : BridgeEvent) (row : Option BridgeTransaction) (u : Update) : Prop :=
  hasProvider event.sourceChain = true ∧ u.answers.saves = true ∧
    ∀ answers, u = .finality answers → IsFinal event answers → findDestinationTxHash row ≠ none →
      hasProvider event.destinationChain = true

/-- A write finds no destination hash, and an ended row only when the source has failed. -/
def Keeping (event : BridgeEvent) (h : History) (u : Update) : Prop :=
  Writes event h.row u → ∀ old ∈ h.row, findDestinationTxHash (some old) = none ∧
    (old.status = .completed ∨ old.status = .failed → u.sourceStatus = .failed)

variable {event : BridgeEvent} {row : Option BridgeTransaction} {old new : BridgeTransaction} {answers : Answers}
  {u : Update} {h : History}

theorem le_round {n : Nat} {x : Number} (bound : (Number.finite n).le x = true) :
    (Number.finite n).le x.round = true := by
  cases x with
  | nan => exact bound
  | infinite negative => exact bound
  | finite x =>
    have least : (n : ℚ) ≤ x := of_decide_eq_true bound
    have whole : (n : Int) ≤ ⌊x + 1 / 2⌋ := Int.le_floor.mpr (by push_cast; linarith)
    exact decide_eq_true (by exact_mod_cast whole)

theorem hundred_le_mul {x : Number} (bound : (Number.finite 1).le x = true) :
    (Number.finite 100).le (x.mul (.finite 100)) = true := by
  cases x with
  | nan => exact bound
  | infinite negative =>
    cases negative with
    | true => exact bound
    | false => rfl
  | finite x =>
    have least : (1 : ℚ) ≤ x := of_decide_eq_true bound
    exact natCast_le_roundRat (n := 100) (by norm_num) (by linarith) (by push_cast; linarith)

theorem quotient_eq {required : Nat} (some_block : 0 < required) (confirmations : Nat) :
    (Number.finite confirmations).div (.finite required) = roundRat (confirmations / required) :=
  if_pos (by exact_mod_cast some_block.ne')

/-- The rounded percentage is short of 100 without the required confirmations, and not with them. -/
theorem progressPercent_lt {confirmations required : Nat} (few : required ≤ 128) (less : confirmations < required) :
    (progressPercent confirmations required).lt (.finite 100) = true := by
  have some_block : 0 < required := Nat.zero_lt_of_lt less
  have positive : (0 : ℚ) < required := by exact_mod_cast some_block
  have most : (confirmations : ℚ) / required ≤ 127 / 128 := by
    have next : (confirmations : ℚ) + 1 ≤ required := by exact_mod_cast less
    have small : (required : ℚ) ≤ 128 := by exact_mod_cast few
    rw [div_le_iff₀ positive]
    linarith
  obtain ⟨share, rounds, nonneg, bound⟩ := roundRat_le_add (k := 0) (by positivity)
    (by norm_num; linarith : (confirmations : ℚ) / required < 2 ^ 0) (by decide)
  norm_num at bound
  obtain ⟨percent, rounded, -, high⟩ := roundRat_le_add (k := 7) (by linarith : 0 ≤ share * 100)
    (by norm_num; linarith) (by decide)
  norm_num at high
  have below : ⌊percent + 1 / 2⌋ < 100 := Int.floor_lt.mpr (by push_cast; linarith)
  have real : ((⌊percent + 1 / 2⌋ : Int) : ℚ) < 100 := by exact_mod_cast below
  have progress : progressPercent confirmations required = .finite ⌊percent + 1 / 2⌋ := by
    rw [progressPercent, quotient_eq some_block, rounds, Number.mul, rounded, Number.round, Number.min,
      if_neg (by simp)]
    exact if_neg (by simpa [Number.le] using real)
  rw [progress]
  simp only [Number.lt, Number.le, decide_eq_true real.le, decide_eq_false real.not_ge, Bool.not_false, Bool.and_self]

theorem hundred_le_progressPercent {confirmations required : Nat} (some_block : 0 < required)
    (enough : required ≤ confirmations) : (Number.finite 100).le (progressPercent confirmations required) = true := by
  have whole : (1 : ℚ) ≤ confirmations / required := by
    rw [le_div_iff₀ (by exact_mod_cast some_block), one_mul]
    exact_mod_cast enough
  have share : (Number.finite 1).le (roundRat (confirmations / required)) = true := by
    have bound := natCast_le_roundRat (n := 1) (by norm_num) whole (by exact_mod_cast whole)
    simpa using bound
  rw [progressPercent, quotient_eq some_block]
  exact JavaScript.le_min (by simp [Number.le]) (le_round (n := 100) (hundred_le_mul share))

theorem required_blocks (chain : Chain) :
    0 < (CHAIN_PROVIDERS chain).confirmationBlocks ∧ (CHAIN_PROVIDERS chain).confirmationBlocks ≤ 128 := by
  cases chain <;> decide

theorem noReorg (currentBlock : Option Int) (blockNumber : Int) : detectReorg currentBlock blockNumber = false := by
  cases currentBlock with
  | none => rfl
  | some current => exact ite_self _

/-- Nothing is correlated, so nothing is known of the destination. -/
theorem resolveDestination_eq (sourceResult : TxStatusResult) :
    resolveDestination event answers sourceResult = (none, unanswered) := by
  unfold resolveDestination
  split
  · rfl
  · rfl

theorem resolve_spec (answers : Answers) (provided : hasProvider event.sourceChain = true) : ∃ resolved,
    resolveBridgeTransaction event answers = some resolved ∧
      resolved.sourceStatus = (answers.source.getD unanswered).status.bridge ∧
      resolved.destinationStatus = .pending ∧ resolved.destinationTxHash = none := by
  rw [resolveBridgeTransaction, if_pos provided]
  simp only [resolveDestination_eq]
  exact ⟨_, rfl, rfl, rfl, rfl⟩

theorem resolvedStatus_eq (provided : hasProvider event.sourceChain = true) :
    resolvedStatus event answers = some (match (answers.source.getD unanswered).status with
      | .failed => .failed
      | .pending => .pending
      | .completed => .bridging) := by
  obtain ⟨resolved, found, source, destination, -⟩ := resolve_spec answers provided
  rw [resolvedStatus, found, Option.map_some, storedStatus, source, destination]
  cases (answers.source.getD unanswered).status <;> rfl

theorem reorg_never (currentBlock blockNumber : Option Int) (blockHash : Option String) :
    (match blockNumber, blockHash with
      | some blockNumber, some _ => detectReorg currentBlock blockNumber
      | _, _ => false) = false := by
  cases blockNumber with
  | none => rfl
  | some blockNumber =>
    cases blockHash with
    | none => rfl
    | some hash => exact noReorg currentBlock blockNumber

theorem finalStatus_plain (provided : hasProvider event.sourceChain = true) :
    finalStatus event row answers = finalityStatus event.destinationChain row answers (answers.source.getD unanswered)
      (progressPercent (answers.source.getD unanswered).confirmations
        (CHAIN_PROVIDERS event.sourceChain).confirmationBlocks) false := by
  rw [finalStatus, checkFinality, if_pos provided]
  simp only [Option.map_map, reorg_never]
  exact Option.map_id'

/-- The finality job decides by the confirmations and what is known of the destination. -/
theorem finalStatus_eq (provided : hasProvider event.sourceChain = true) :
    finalStatus event row answers = match (answers.source.getD unanswered).status with
      | .failed => some .failed
      | .pending => some .pending
      | .completed =>
        if (answers.source.getD unanswered).confirmations < (CHAIN_PROVIDERS event.sourceChain).confirmationBlocks then
          some .detected
        else
          match findDestinationTxHash row with
          | some _ =>
            if hasProvider event.destinationChain then
              match (answers.destination.getD unanswered).status with
              | .completed => some .completed
              | .failed => some .failed
              | .pending => some .bridging
            else none
          | none => some .bridging := by
  obtain ⟨some_block, few⟩ := required_blocks event.sourceChain
  rw [finalStatus_plain provided, finalityStatus, if_neg Bool.false_ne_true]
  cases status : (answers.source.getD unanswered).status with
  | failed => rfl
  | pending => rfl
  | completed =>
    rw [if_neg (by decide), if_neg (by decide)]
    rcases Nat.lt_or_ge (answers.source.getD unanswered).confirmations
        (CHAIN_PROVIDERS event.sourceChain).confirmationBlocks with less | enough
    · rw [if_pos (progressPercent_lt few less)]
      exact (if_pos less).symm
    · have hundred := hundred_le_progressPercent some_block enough
      rw [if_neg (by simp [Number.lt, hundred]), if_pos ⟨hundred, rfl⟩]
      exact (if_neg enough.not_gt).symm

theorem statuses_agree_iff (event : BridgeEvent) (row : Option BridgeTransaction) (answers : Answers) :
    resolvedStatus event answers = finalStatus event row answers ↔ Undecided event row answers := by
  unfold Undecided
  by_cases provided : hasProvider event.sourceChain = true
  · rw [resolvedStatus_eq provided, finalStatus_eq provided]
    cases status : (answers.source.getD unanswered).status with
    | failed => simp
    | pending => simp
    | completed =>
      rcases Nat.lt_or_ge (answers.source.getD unanswered).confirmations
          (CHAIN_PROVIDERS event.sourceChain).confirmationBlocks with less | enough
      · simp [provided, IsFinal, status, less]
      · cases known : findDestinationTxHash row with
        | none => simp [IsFinal, status, enough, enough.not_gt]
        | some hash =>
          cases destination : hasProvider event.destinationChain with
          | false => simp [provided, enough.not_gt]
          | true =>
            cases final : (answers.destination.getD unanswered).status <;>
              simp [provided, IsFinal, status, enough, enough.not_gt]
  · simp [resolvedStatus, resolveBridgeTransaction, finalStatus, checkFinality, provided]

theorem perform_resolve (old : BridgeTransaction) (provided : hasProvider event.sourceChain = true)
    (saved : answers.saves = true) : ∃ new, perform event (some old) (.resolve answers) = some new ∧ findDestinationTxHash (some new) = none ∧
      some new.status = resolvedStatus event answers := by
  obtain ⟨resolved, found, -, -, unknown⟩ := resolve_spec answers provided
  simp only [perform, found, Option.elim_some, storeBridgeTransaction, saved, if_true]
  refine ⟨_, rfl, ?_, ?_⟩
  · simp only [findDestinationTxHash, Option.bind_some, unknown, Option.filter_none]
  · rw [resolvedStatus, found, Option.map_some]

theorem perform_finality (saved : answers.saves = true) {status : BridgeStatus}
    (decided : finalStatus event (some old) answers = some status) :
    ∃ new, perform event (some old) (.finality answers) = some new ∧ findDestinationTxHash (some new) = none ∧
      new.status = status := by
  obtain ⟨finality, checked, rfl⟩ := Option.map_eq_some_iff.mp decided
  simp only [perform, checked, Option.elim_some, updateTransactionFinality, saved, if_true, Option.map_some]
  exact ⟨_, rfl, rfl, rfl⟩

/-- The finality job comes to a status unless it asks a destination chain without provider. -/
theorem finalStatus_cases (row : Option BridgeTransaction) (answers : Answers)
    (provided : hasProvider event.sourceChain = true) :
    finalStatus event row answers = none ∧ IsFinal event answers ∧ findDestinationTxHash row ≠ none ∧
        hasProvider event.destinationChain = false ∨
      ∃ status, finalStatus event row answers = some status ∧ status ≠ .reorged ∧
        (IsFinal event answers → findDestinationTxHash row ≠ none → hasProvider event.destinationChain = true) ∧
        (findDestinationTxHash row = none → (IsOpen status ↔ (answers.source.getD unanswered).status ≠ .failed)) := by
  rw [finalStatus_eq provided]
  cases source : (answers.source.getD unanswered).status with
  | failed => exact .inr ⟨_, rfl, by decide, by simp [IsFinal, source], by simp [IsOpen]⟩
  | pending => exact .inr ⟨_, rfl, by decide, by simp [IsFinal, source], by simp [IsOpen]⟩
  | completed =>
    rcases Nat.lt_or_ge (answers.source.getD unanswered).confirmations
        (CHAIN_PROVIDERS event.sourceChain).confirmationBlocks with less | enough
    · rw [if_pos less]
      exact .inr ⟨_, rfl, by decide, by simp [IsFinal, source, less], by simp [IsOpen]⟩
    · simp only [if_neg enough.not_gt]
      cases known : findDestinationTxHash row with
      | none => exact .inr ⟨_, rfl, by decide, by simp, by simp [IsOpen]⟩
      | some hash =>
        cases destination : hasProvider event.destinationChain with
        | false => exact .inl ⟨rfl, ⟨source, enough⟩, by simp, rfl⟩
        | true =>
          cases (answers.destination.getD unanswered).status with
          | completed => exact .inr ⟨_, rfl, by decide, by simp, by simp⟩
          | failed => exact .inr ⟨_, rfl, by decide, by simp, by simp⟩
          | pending => exact .inr ⟨_, rfl, by decide, by simp, by simp⟩

theorem perform_unwritten (unwritten : ¬ Writes event row u) : perform event row u = row := by
  cases u with
  | resolve answers =>
    cases provided : hasProvider event.sourceChain with
    | false => simp [perform, resolveBridgeTransaction, provided]
    | true =>
      have lost : answers.saves = false := by
        by_contra saved
        exact unwritten ⟨provided, Bool.eq_true_of_not_eq_false saved, fun _ other => by cases other⟩
      obtain ⟨resolved, found, -⟩ := resolve_spec answers provided
      simp [perform, found, storeBridgeTransaction, lost]
  | finality answers =>
    cases provided : hasProvider event.sourceChain with
    | false => simp [perform, checkFinality, provided]
    | true =>
      cases checked : checkFinality event.transactionHash event.sourceChain event.destinationChain row answers with
      | none => simp [perform, checked]
      | some finality =>
        have lost : answers.saves = false := by
          by_contra saved
          rcases finalStatus_cases row answers provided with ⟨undecided, -⟩ | ⟨status, -, -, reaches, -⟩
          · simp [finalStatus, checked] at undecided
          · refine unwritten ⟨provided, Bool.eq_true_of_not_eq_false saved, ?_⟩
            rintro answers ⟨⟩
            exact reaches
        simp [perform, checked, updateTransactionFinality, lost]

/-- What a write leaves in the row. -/
theorem perform_written (writes : Writes event (some old) u) : ∃ new, perform event (some old) u = some new ∧
    findDestinationTxHash (some new) = none ∧ new.status ≠ .reorged ∧
    (findDestinationTxHash (some old) = none → (IsOpen new.status ↔ u.sourceStatus ≠ .failed)) := by
  obtain ⟨provided, saved, reaches⟩ := writes
  cases u with
  | resolve answers =>
    obtain ⟨new, performed, unknown, status⟩ := perform_resolve old provided saved
    rw [resolvedStatus_eq provided, Option.some.injEq] at status
    change new.status = match (Update.resolve answers).sourceStatus with
      | .failed => .failed
      | .pending => .pending
      | .completed => .bridging at status
    refine ⟨new, performed, unknown, ?_, fun _ => ?_⟩
    · rw [status]
      cases (Update.resolve answers).sourceStatus <;> decide
    · rw [status]
      cases (Update.resolve answers).sourceStatus <;> simp [IsOpen]
  | finality answers =>
    rcases finalStatus_cases (some old) answers provided with
      ⟨-, final, known, missing⟩ | ⟨status, decided, proper, -, open_iff⟩
    · have destination := reaches answers rfl final known
      rw [destination] at missing
      contradiction
    · obtain ⟨new, performed, unknown, rfl⟩ := perform_finality saved decided
      exact ⟨new, performed, unknown, proper, open_iff⟩

def Ended (status : BridgeStatus) : Prop := status = .completed ∨ status = .failed

theorem Ended.not_open {status : BridgeStatus} (ended : Ended status) : ¬ IsOpen status := by
  rcases ended with rfl | rfl
  · simp [IsOpen]
  · simp [IsOpen]

theorem ended_of_not_open {status : BridgeStatus} (notOpen : ¬ IsOpen status) (proper : status ≠ .reorged) :
    Ended status := by
  cases status <;> simp_all [IsOpen, Ended]

/-- An ended row is not even shown as reorged later. -/
structure Lasting (old new : BridgeTransaction) : Prop where
  hash : ∀ hash, findDestinationTxHash (some old) = some hash → findDestinationTxHash (some new) = some hash
  ended : Ended old.status → Ended new.status

theorem Lasting.refl (row : BridgeTransaction) : Lasting row row := ⟨fun _ known => known, fun ended => ended⟩

structure Inv (h : History) : Prop where
  lasting : ∀ old ∈ h.past, ∀ new ∈ h.row, Lasting old new
  started : h.row = none → h.past = []

theorem Inv.kept (inv : Inv h) : Kept h := by
  intro old before new now
  have lasting := inv.lasting old before new now
  exact ⟨lasting.hash, fun ended => (lasting.ended ended).not_open⟩

/-- A write that keeps the row keeps all that it has been. -/
theorem Inv.step (inv : Inv h) (keeping : Keeping event h u) {next : History}
    (stepped : (system event).step h u = some next) : Inv next := by
  cases stepped
  obtain ⟨row, past⟩ := h
  cases row with
  | none =>
    have fresh : past = [] := inv.started rfl
    subst fresh
    exact ⟨fun old before => (by cases before), fun _ => rfl⟩
  | some current =>
    have states : ∀ old ∈ past ++ [current], Lasting old current := by
      intro old before
      rcases List.mem_append.mp before with earlier | same
      · exact inv.lasting old earlier current rfl
      · rw [List.mem_singleton.mp same]
        exact .refl current
    by_cases writes : Writes event (some current) u
    · obtain ⟨new, performed, unknown, proper, open_iff⟩ := perform_written writes
      obtain ⟨none_known, failing⟩ := keeping writes current rfl
      refine ⟨fun old before found now => ?_, fun empty => by rw [performed] at empty; contradiction⟩
      rw [performed] at now
      cases now
      have lasting := states old before
      constructor
      · intro hash known
        have kept := lasting.hash hash known
        rw [none_known] at kept
        contradiction
      · intro ended
        have failed := failing (lasting.ended ended)
        exact ended_of_not_open (fun isOpen => (open_iff none_known).mp isOpen failed) proper
    · have same := perform_unwritten writes
      refine ⟨fun old before found now => ?_, fun empty => by rw [same] at empty; contradiction⟩
      rw [same] at now
      cases now
      exact states old before

/-- A write after which the row keeps what it has been meets the condition. -/
theorem keeping_of_kept {next : History} (stepped : (system event).step h u = some next) (kept : Kept next) :
    Keeping event h u := by
  cases stepped
  intro writes old found
  obtain ⟨row, past⟩ := h
  cases found
  obtain ⟨new, performed, unknown, proper, open_iff⟩ := perform_written writes
  have keeps := kept old (List.mem_append_right _ (by simp)) new performed
  have none_known : findDestinationTxHash (some old) = none := by
    cases known : findDestinationTxHash (some old) with
    | none => rfl
    | some hash =>
      have lost := unknown.symm.trans (keeps.hash hash known)
      contradiction
  refine ⟨none_known, fun ended => ?_⟩
  by_contra unfailed
  exact keeps.ended ended ((open_iff none_known).mpr unfailed)

/-- The two jobs give a transfer one status exactly while they learn nothing that only one of
them looks at; and a row keeps its hash and its end exactly where no write overrides them. -/
theorem one_status_iff (event : BridgeEvent) :
    (∀ row answers, resolvedStatus event answers = finalStatus event row answers ↔ Undecided event row answers) ∧
      ∀ row updates, (system event).Along Kept ⟨row, []⟩ updates ↔
        (system event).Guarded (Keeping event) ⟨row, []⟩ updates := by
  refine ⟨statuses_agree_iff event, fun row updates => ?_⟩
  refine Transition.System.along_iff_guarded Inv.kept ?_ ?_ ?_ updates
  · exact fun inv keeping stepped => inv.step keeping stepped
  · exact fun _ stepped kept => keeping_of_kept stepped kept
  · exact ⟨fun old before => (by cases before), fun _ => rfl⟩

def transfer : BridgeEvent := ⟨"0xabc", .ethereum, .bsc, "USDC", "10", "0x1", "0x2", "stargate", none⟩

/-- The source chain has the transfer in its last block. -/
def justIncluded : Answers := ⟨some ⟨1, .completed, none, none⟩, none, none, [], 0, true⟩

theorem just_included_two_statuses : ¬ ((∀ event row answers,
      resolvedStatus event answers = finalStatus event row answers) ∧
    ∀ event row updates, (system event).Along Kept ⟨row, []⟩ updates) := by
  rintro ⟨agree, -⟩
  have undecided := (statuses_agree_iff transfer none justIncluded).mp (agree transfer none justIncluded)
  have final := (undecided rfl rfl).1.2
  exact absurd final (by decide)

end Octraban.BridgeTracker
