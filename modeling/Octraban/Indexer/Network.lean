import Mathlib.Data.List.Basic

/-! rpc.ts: the ledgers of the network, their metadata and the pages of their
contract events. -/
namespace Octraban.Indexer

structure ContractEvent where
  contractId : String
  transactionHash : String
  topics : List String
  data : String
  pagingToken : String
  deriving DecidableEq

structure LedgerEvent extends ContractEvent where
  ledgerSequence : Nat
  deriving DecidableEq

/-- The contract events of a ledger, and what else its hash covers. -/
structure Block where
  events : List ContractEvent
  header : String
  deriving DecidableEq

/-- The ledgers up to `tip` exist. -/
structure Chain where
  block : Nat → Block
  tip : Nat

structure LedgerMeta (H : Type*) where
  hash : H
  previousLedgerHash : H
  deriving DecidableEq

def EVENT_PAGE_SIZE : Nat := 200

namespace Chain

def eventsAt (c : Chain) (sequence : Nat) : List LedgerEvent :=
  if sequence ≤ c.tip then (c.block sequence).events.map fun event => ⟨event, sequence⟩ else []

/-- The events from `startLedger` on, as an RPC node lists them. -/
def eventsFrom (c : Chain) (startLedger : Nat) : List LedgerEvent :=
  (List.range' startLedger (c.tip + 1 - startLedger)).flatMap c.eventsAt

def getEvents (c : Chain) (startLedger offset : Nat) : List LedgerEvent :=
  ((c.eventsFrom startLedger).drop offset).take EVENT_PAGE_SIZE

/-- The events of a range of ledgers. -/
def eventsBetween (c : Chain) (startLedger endLedger : Nat) : List LedgerEvent :=
  (List.range' startLedger (endLedger + 1 - startLedger)).flatMap c.eventsAt

def upTo (c : Chain) (n : Nat) : List Block := (List.range n).map c.block

variable {H : Type*} (hash : List Block → H)

/-- A ledger's hash covers its block and every earlier one. -/
def ledgerMeta (c : Chain) (sequence : Nat) : LedgerMeta H :=
  ⟨hash (c.upTo (sequence + 1)), hash (c.upTo sequence)⟩

/-- The ledgers from `fork` on are replaced. -/
def reorg (c : Chain) (fork : Nat) (block : Nat → Block) (tip : Nat) : Chain :=
  ⟨fun n => if n < fork then c.block n else block n, tip⟩

/-- Both have the ledgers up to `n`, and the same ones. -/
def Agree (c d : Chain) (n : Nat) : Prop := n ≤ c.tip ∧ n ≤ d.tip ∧ ∀ m ≤ n, c.block m = d.block m

variable {c d : Chain} {startLedger endLedger : Nat}

theorem eventsAt_ledger {event : LedgerEvent} {n : Nat} (member : event ∈ c.eventsAt n) :
    event.ledgerSequence = n ∧ n ≤ c.tip := by
  unfold eventsAt at member
  split at member
  · rename_i exists_
    obtain ⟨_, -, rfl⟩ := List.mem_map.mp member
    exact ⟨rfl, exists_⟩
  · contradiction

theorem mem_eventsBetween {event : LedgerEvent} : event ∈ c.eventsBetween startLedger endLedger ↔
    startLedger ≤ event.ledgerSequence ∧ event.ledgerSequence ≤ endLedger ∧
      event ∈ c.eventsAt event.ledgerSequence := by
  rw [eventsBetween, List.mem_flatMap]
  constructor
  · rintro ⟨n, listed, member⟩
    obtain ⟨rfl, -⟩ := eventsAt_ledger member
    rw [List.mem_range'_1] at listed
    exact ⟨listed.1, by omega, member⟩
  · rintro ⟨lower, upper, member⟩
    refine ⟨event.ledgerSequence, ?_, member⟩
    rw [List.mem_range'_1]
    omega

theorem Agree.eventsBetween (agree : Agree c d endLedger) :
    c.eventsBetween startLedger endLedger = d.eventsBetween startLedger endLedger := by
  obtain ⟨left, right, same⟩ := agree
  unfold Chain.eventsBetween
  refine List.flatMap_congr fun n listed => ?_
  rw [List.mem_range'_1] at listed
  have inside : n ≤ endLedger := by omega
  rw [eventsAt, eventsAt, if_pos (by omega), if_pos (by omega), same n inside]

/-- The events of a range come first in the listing. -/
theorem eventsFrom_split (ordered : startLedger ≤ endLedger + 1) (exists_ : endLedger ≤ c.tip) :
    ∃ later, c.eventsFrom startLedger = c.eventsBetween startLedger endLedger ++ later ∧
      ∀ event ∈ later, endLedger < event.ledgerSequence := by
  refine ⟨(List.range' (endLedger + 1) (c.tip - endLedger)).flatMap c.eventsAt, ?_, fun event member => ?_⟩
  · have split : c.tip + 1 - startLedger = (endLedger + 1 - startLedger) + (c.tip - endLedger) := by omega
    have next : endLedger + 1 = startLedger + (endLedger + 1 - startLedger) := by omega
    rw [eventsFrom, split, ← List.range'_append_1, List.flatMap_append, ← next, Chain.eventsBetween]
  · obtain ⟨n, listed, at_⟩ := List.mem_flatMap.mp member
    rw [List.mem_range'_1] at listed
    rw [(eventsAt_ledger at_).1]
    omega

end Chain

/-- What fetchEvents keeps of a page. -/
def inRange (startLedger endLedger : Nat) (event : LedgerEvent) : Bool :=
  startLedger ≤ event.ledgerSequence ∧ event.ledgerSequence ≤ endLedger

section Pages
variable {α : Type*} {inside outside : List α} {keep : α → Bool}

/-- Where the kept entries come first, a page keeps the next of them. -/
theorem filter_page (kept : ∀ x ∈ inside, keep x = true) (dropped : ∀ x ∈ outside, keep x = false)
    (offset size : Nat) :
    (((inside ++ outside).drop offset).take size).filter keep = (inside.drop offset).take size := by
  rw [List.drop_append, List.take_append, List.filter_append]
  have first : ((inside.drop offset).take size).filter keep = (inside.drop offset).take size := by
    rw [List.filter_eq_self]
    exact fun x member => kept x (List.mem_of_mem_drop (List.mem_of_mem_take member))
  rw [first, List.append_right_eq_self, List.filter_eq_nil_iff]
  intro x member
  rw [dropped x (List.mem_of_mem_drop (List.mem_of_mem_take member))]
  exact Bool.false_ne_true

/-- A page of entries that are not kept shows that the kept ones have come. -/
theorem past_inside (kept : ∀ x ∈ inside, keep x = true) {offset size : Nat} (positive : 0 < size)
    (page : ∀ x ∈ ((inside ++ outside).drop offset).take size, keep x = false) :
    inside.length ≤ offset := by
  by_contra short
  have bound : offset < inside.length := Nat.lt_of_not_le short
  have first : inside[offset] ∈ ((inside ++ outside).drop offset).take size := by
    rw [List.mem_take_iff_getElem]
    refine ⟨0, by simp; omega, ?_⟩
    simp only [List.getElem_drop, Nat.add_zero]
    exact List.getElem_append_left (by omega)
  have rejected := page _ first
  rw [kept _ (List.getElem_mem _)] at rejected
  contradiction

end Pages
end Octraban.Indexer
