import Octraban.Core.Upsert
import Mathlib.Data.List.Infix
import Mathlib.Data.List.Sort

/-! circuitBreakerIndexer.js and circuitBreakerDetector.js: the pause status of a
contract, kept event by event and read off the whole list of its events. -/
namespace Octraban.CircuitBreaker
open Sql
open scoped List

structure DecodedEvent where
  contract_id : String
  function : String
  ledger : Nat
  description : Option String
  deriving DecidableEq

/-- `functions` holds the names only. -/
structure ContractMeta where
  functions : Option (List String)

structure ContractRow where
  is_paused : Bool
  pause_status_ledger : Option Nat
  deriving DecidableEq

structure PauseStatus where
  isPaused : Bool
  lastStatusChange : Option Nat
  reason : Option String
  deriving DecidableEq

abbrev Contracts := Table String ContractRow

def includes (text keyword : String) : Bool := keyword.toList <:+: text.toList

def pauseKeywords : List String :=
  ["pause", "unpause", "is_paused", "paused", "emergency", "halt", "stop"]

/-- db.js -/
def updateCircuitBreakerStatus (contracts : Contracts) (contractId : String) (isPaused : Bool)
    (ledger : Option Nat) : Contracts :=
  contracts.updateRow contractId fun _ => ⟨isPaused, ledger⟩

-- nothing below relies on what lowercasing does
variable (toLowerCase : String → String)

def hasCircuitBreaker (meta_ : Option ContractMeta) : Bool :=
  match meta_.bind ContractMeta.functions with
  | none => false
  | some functions =>
    let fnNames := functions.map toLowerCase
    pauseKeywords.any fun keyword => fnNames.any fun fn => includes fn keyword

def processCircuitBreakerEvent (contracts : Contracts) (decoded : DecodedEvent)
    (meta_ : Option ContractMeta) : Contracts :=
  if hasCircuitBreaker toLowerCase meta_ then
    let fnName := toLowerCase decoded.function
    if includes fnName "pause" || includes fnName "unpause" || includes fnName "resume" then
      let isPaused := includes fnName "pause" && !includes fnName "unpause"
      updateCircuitBreakerStatus contracts decoded.contract_id isPaused (some decoded.ledger)
    else contracts
  else contracts

/-- The body of the loop of `determinePauseStatus`. -/
def statusChange (event : DecodedEvent) : Option PauseStatus :=
  let fn := toLowerCase event.function
  if includes fn "pause" && !includes fn "unpause" then
    some ⟨true, some event.ledger, event.description⟩
  else if includes fn "unpause" || (includes fn "resume" && !includes fn "pause") then
    some ⟨false, some event.ledger, event.description⟩
  else none

def determinePauseStatus (events : List DecodedEvent) : PauseStatus :=
  let sorted := events.mergeSort fun a b => b.ledger ≤ a.ledger
  (sorted.findSome? (statusChange toLowerCase)).getD ⟨false, none, none⟩

variable {toLowerCase}

theorem includes_mono {text inner outer : String} (within : inner.toList <:+: outer.toList)
    (found : includes text outer = true) : includes text inner = true :=
  decide_eq_true (within.trans (of_decide_eq_true found))

/-- Both computations tell a pause from an unpause alike. -/
theorem processCircuitBreakerEvent_eq {meta_ : Option ContractMeta}
    (breaker : hasCircuitBreaker toLowerCase meta_ = true) (contracts : Contracts)
    (decoded : DecodedEvent) :
    processCircuitBreakerEvent toLowerCase contracts decoded meta_ =
      (statusChange toLowerCase decoded).elim contracts fun status =>
        updateCircuitBreakerStatus contracts decoded.contract_id status.isPaused
          status.lastStatusChange := by
  have unpauses : includes (toLowerCase decoded.function) "unpause" = true →
      includes (toLowerCase decoded.function) "pause" = true := includes_mono ⟨['u', 'n'], [], rfl⟩
  unfold processCircuitBreakerEvent statusChange
  rw [if_pos breaker]
  cases pause : includes (toLowerCase decoded.function) "pause" with
  | true =>
    cases unpause : includes (toLowerCase decoded.function) "unpause" with
    | true => simp [pause, unpause]
    | false => simp [pause, unpause]
  | false =>
    have unpause : includes (toLowerCase decoded.function) "unpause" = false := by
      rw [← Bool.not_eq_true]
      intro found
      rw [unpauses found] at pause
      contradiction
    cases resume : includes (toLowerCase decoded.function) "resume" with
    | true => simp [pause, unpause, resume]
    | false => simp [pause, unpause, resume]

theorem statusChange_ledger {event : DecodedEvent} {status : PauseStatus}
    (changed : statusChange toLowerCase event = some status) :
    status.lastStatusChange = some event.ledger := by
  simp only [statusChange] at changed
  split at changed
  · cases changed
    rfl
  · split at changed
    · cases changed
      rfl
    · contradiction

def PauseStatus.row (status : PauseStatus) : ContractRow := ⟨status.isPaused, status.lastStatusChange⟩

theorem lookup_processCircuitBreakerEvent {meta_ : Option ContractMeta}
    (breaker : hasCircuitBreaker toLowerCase meta_ = true) (contracts : Contracts)
    (decoded : DecodedEvent) :
    (processCircuitBreakerEvent toLowerCase contracts decoded meta_).lookup decoded.contract_id =
      (statusChange toLowerCase decoded).elim (contracts.lookup decoded.contract_id) fun status =>
        (contracts.lookup decoded.contract_id).map fun _ => status.row := by
  rw [processCircuitBreakerEvent_eq breaker]
  cases statusChange toLowerCase decoded with
  | none => rfl
  | some status => exact Table.lookup_updateRow_self

/-- The last event that says something about the status decides. -/
theorem foldl_status {meta_ : Option ContractMeta} (breaker : hasCircuitBreaker toLowerCase meta_ = true)
    {contracts : Contracts} {contractId : String} {row : ContractRow}
    (stored : contracts.lookup contractId = some row) (events : List DecodedEvent)
    (own : ∀ event ∈ events, event.contract_id = contractId) :
    (events.foldl (fun contracts event => processCircuitBreakerEvent toLowerCase contracts event meta_)
      contracts).lookup contractId =
        some (((events.reverse.findSome? (statusChange toLowerCase)).map PauseStatus.row).getD row) := by
  induction events using List.reverseRecOn with
  | nil => exact stored
  | append_singleton events event ih =>
    have before := ih fun earlier member => own earlier (List.mem_append_left _ member)
    have named : event.contract_id = contractId := own event (List.mem_append_right _ List.mem_cons_self)
    subst named
    rw [List.foldl_append, List.foldl_cons, List.foldl_nil, List.reverse_append, List.reverse_singleton,
      List.singleton_append, List.findSome?_cons, lookup_processCircuitBreakerEvent breaker, before]
    cases statusChange toLowerCase event with
    | none => rfl
    | some status => rfl

theorem pairwise_mergeSort_ledger (events : List DecodedEvent) :
    (events.mergeSort fun a b => a.ledger ≤ b.ledger).Pairwise (fun a b => a.ledger ≤ b.ledger) ∧
      (events.mergeSort fun a b => b.ledger ≤ a.ledger).Pairwise fun a b => b.ledger ≤ a.ledger := by
  constructor
  · have sorted : (events.mergeSort fun a b => a.ledger ≤ b.ledger).Pairwise
        fun a b => decide (a.ledger ≤ b.ledger) = true :=
      List.pairwise_mergeSort (by simp; omega) (by simp; omega) events
    simpa using sorted
  · have sorted : (events.mergeSort fun a b => b.ledger ≤ a.ledger).Pairwise
        fun a b => decide (b.ledger ≤ a.ledger) = true :=
      List.pairwise_mergeSort (by simp; omega) (by simp; omega) events
    simpa using sorted

/-- With one event for each ledger, sorting up and sorting down are each other's reverse. -/
theorem mergeSort_reverse {events : List DecodedEvent} (distinct : (events.map (·.ledger)).Nodup) :
    (events.mergeSort fun a b => a.ledger ≤ b.ledger).reverse =
      events.mergeSort fun a b => b.ledger ≤ a.ledger := by
  obtain ⟨up, down⟩ := pairwise_mergeSort_ledger events
  have antisymm (a b : DecodedEvent) (left : a ∈ (events.mergeSort fun a b => a.ledger ≤ b.ledger).reverse)
      (right : b ∈ events.mergeSort fun a b => b.ledger ≤ a.ledger) (ge : b.ledger ≤ a.ledger)
      (le : a.ledger ≤ b.ledger) : a = b := by
    apply List.inj_on_of_nodup_map distinct
    · exact List.mem_mergeSort.mp (List.mem_reverse.mp left)
    · exact List.mem_mergeSort.mp right
    · exact le_antisymm le ge
  apply List.Perm.eq_of_pairwise antisymm (List.pairwise_reverse.mpr up) down
  calc (events.mergeSort fun a b => a.ledger ≤ b.ledger).reverse
    _ ~ events.mergeSort fun a b => a.ledger ≤ b.ledger := List.reverse_perm _
    _ ~ events := List.mergeSort_perm _ _
    _ ~ events.mergeSort fun a b => b.ledger ≤ a.ledger := (List.mergeSort_perm _ _).symm

/-- Folding the events of a circuit breaker contract in the order of their ledgers
ends with the status found in the whole list. -/
theorem incremental_eq_full {meta_ : Option ContractMeta}
    (breaker : hasCircuitBreaker toLowerCase meta_ = true) {contracts : Contracts} {contractId : String}
    (registered : contracts.lookup contractId = some ⟨false, none⟩) (events : List DecodedEvent)
    (own : ∀ event ∈ events, event.contract_id = contractId)
    (distinct : (events.map (·.ledger)).Nodup) :
    ((events.mergeSort fun a b => a.ledger ≤ b.ledger).foldl (fun contracts event =>
      processCircuitBreakerEvent toLowerCase contracts event meta_) contracts).lookup contractId =
        some (determinePauseStatus toLowerCase events).row := by
  have sorted : ∀ event ∈ events.mergeSort fun a b => a.ledger ≤ b.ledger,
      event.contract_id = contractId := fun event member => own event (List.mem_mergeSort.mp member)
  rw [foldl_status breaker registered _ sorted, mergeSort_reverse distinct, determinePauseStatus]
  cases (events.mergeSort fun a b => b.ledger ≤ a.ledger).findSome? (statusChange toLowerCase) with
  | none => rfl
  | some status => rfl

def vaultEvents : List DecodedEvent :=
  [⟨"C", "unpause", 7, none⟩, ⟨"C", "do_pause", 9, some "halted"⟩, ⟨"C", "resume", 5, none⟩,
    ⟨"C", "transfer", 11, none⟩]

theorem vault_incremental_eq_full :
    ((vaultEvents.mergeSort fun a b => a.ledger ≤ b.ledger).foldl (fun contracts event =>
      processCircuitBreakerEvent id contracts event (some ⟨some ["pause"]⟩))
        (AList.singleton "C" ⟨false, none⟩)).lookup "C" =
      some (determinePauseStatus id vaultEvents).row :=
  incremental_eq_full (by decide) rfl vaultEvents (by decide) (by decide)

end Octraban.CircuitBreaker
