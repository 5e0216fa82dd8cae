import Octraban.Core.Upsert

/-! db.js, token_holders: balances kept by INSERT … ON CONFLICT DO UPDATE. The row of
a new holder gets the amount itself, also when the holder spends. -/
namespace Octraban.TokenHolders
open Sql

/-- UNIQUE (contract_id, address); `balance_raw` is the text of a NUMERIC. -/
abbrev Holders := Table (String × String) Int

def applyTransfer (holders : Holders) (contractId from_ to_ : String) (amount : Nat) : Holders :=
  (holders.upsert (contractId, from_) amount (· - amount)).upsert (contractId, to_) amount (· + amount)

def applyMint (holders : Holders) (contractId to_ : String) (amount : Nat) : Holders :=
  holders.upsert (contractId, to_) amount (· + amount)

def applyBurn (holders : Holders) (contractId from_ : String) (amount : Nat) : Holders :=
  holders.upsert (contractId, from_) amount (· - amount)

inductive Call where
  | applyTransfer (contractId from_ to_ : String) (amount : Nat)
  | applyMint (contractId to_ : String) (amount : Nat)
  | applyBurn (contractId from_ : String) (amount : Nat)

def Call.run (holders : Holders) : Call → Holders
  | .applyTransfer contractId from_ to_ amount => TokenHolders.applyTransfer holders contractId from_ to_ amount
  | .applyMint contractId to_ amount => TokenHolders.applyMint holders contractId to_ amount
  | .applyBurn contractId from_ amount => TokenHolders.applyBurn holders contractId from_ amount

def process (calls : List Call) : Holders := calls.foldl Call.run ∅

namespace Call
variable (contractId address : String)

def minted : Call → Int
  | .applyMint c _ amount => if c = contractId then amount else 0
  | .applyTransfer .. | .applyBurn .. => 0

def burned : Call → Int
  | .applyBurn c _ amount => if c = contractId then amount else 0
  | .applyTransfer .. | .applyMint .. => 0

def received : Call → Int
  | .applyTransfer c _ to_ amount | .applyMint c to_ amount =>
    if (c, to_) = (contractId, address) then amount else 0
  | .applyBurn .. => 0

def spent : Call → Int
  | .applyTransfer c from_ _ amount | .applyBurn c from_ amount =>
    if (c, from_) = (contractId, address) then amount else 0
  | .applyMint .. => 0

/-- The call writes the row of the holder. -/
def touches : Call → Bool
  | .applyTransfer c from_ to_ _ =>
    (c, from_) = (contractId, address) ∨ (c, to_) = (contractId, address)
  | .applyMint c to_ _ => (c, to_) = (contractId, address)
  | .applyBurn c from_ _ => (c, from_) = (contractId, address)

end Call

/-- What the holder table of a contract is for. -/
structure Conserved (calls : List Call) (contractId : String) : Prop where
  supply : (process calls).total (·.1 = contractId) id =
    (calls.map (Call.minted contractId)).sum - (calls.map (Call.burned contractId)).sum
  balances : ∀ address, ((process calls).lookup (contractId, address)).getD 0 =
    (calls.map (Call.received contractId address)).sum - (calls.map (Call.spent contractId address)).sum

/-- The first call that touches a holder spends nothing of it. -/
def FundedFirst (calls : List Call) (contractId : String) : Prop :=
  ∀ address first, calls.find? (Call.touches contractId address) = some first →
    first.spent contractId address = 0

variable {calls : List Call} {contractId : String}

/-- A first spending is booked as a receipt. -/
theorem lookup_run (holders : Holders) (call : Call) (contractId address : String) :
    (call.run holders).lookup (contractId, address) =
      if call.touches contractId address then
        some ((holders.lookup (contractId, address)).elim
          (call.received contractId address + call.spent contractId address)
          (· + call.received contractId address - call.spent contractId address))
      else holders.lookup (contractId, address) := by
  cases call with
  | applyMint c to_ amount =>
    simp only [Call.run, applyMint, Call.touches, Call.received, Call.spent, decide_eq_true_eq]
    split
    · rename_i same
      rw [← same, Table.lookup_upsert_self]
      cases holders.lookup (c, to_) <;> simp
    · rename_i other
      exact Table.lookup_upsert_ne fun same => other same.symm
  | applyBurn c from_ amount =>
    simp only [Call.run, applyBurn, Call.touches, Call.received, Call.spent, decide_eq_true_eq]
    split
    · rename_i same
      rw [← same, Table.lookup_upsert_self]
      cases holders.lookup (c, from_) <;> simp
    · rename_i other
      exact Table.lookup_upsert_ne fun same => other same.symm
  | applyTransfer c from_ to_ amount =>
    simp only [Call.run, applyTransfer, Call.touches, Call.received, Call.spent, decide_eq_true_eq]
    by_cases receives : (c, to_) = (contractId, address)
    · rw [← receives, Table.lookup_upsert_self, if_pos (.inr rfl), if_pos rfl]
      by_cases spends : (c, from_) = (c, to_)
      · rw [spends, Table.lookup_upsert_self, if_pos rfl]
        cases holders.lookup (c, to_) <;> simp
      · rw [Table.lookup_upsert_ne fun same => spends same.symm, if_neg spends]
        cases holders.lookup (c, to_) <;> simp
    · rw [Table.lookup_upsert_ne fun same => receives same.symm, if_neg receives]
      by_cases spends : (c, from_) = (contractId, address)
      · rw [← spends, Table.lookup_upsert_self, if_pos (.inl rfl), if_pos rfl]
        cases holders.lookup (c, from_) <;> simp
      · rw [Table.lookup_upsert_ne fun same => spends same.symm, if_neg (not_or.mpr ⟨spends, receives⟩)]

theorem untouched {call : Call} {contractId address : String}
    (untouched : call.touches contractId address = false) :
    call.received contractId address = 0 ∧ call.spent contractId address = 0 := by
  cases call with
  | applyMint c to_ amount =>
    exact ⟨if_neg (of_decide_eq_false untouched), rfl⟩
  | applyBurn c from_ amount =>
    exact ⟨rfl, if_neg (of_decide_eq_false untouched)⟩
  | applyTransfer c from_ to_ amount =>
    have neither := not_or.mp (of_decide_eq_false untouched)
    exact ⟨if_neg neither.2, if_neg neither.1⟩

theorem sums_of_untouched {contractId address : String}
    (untouchedBy : calls.find? (Call.touches contractId address) = none) :
    (calls.map (Call.received contractId address)).sum = 0 ∧
      (calls.map (Call.spent contractId address)).sum = 0 := by
  have none (call : Call) (member : call ∈ calls) :
      call.received contractId address = 0 ∧ call.spent contractId address = 0 :=
    untouched (Bool.eq_false_iff.mpr (List.find?_eq_none.mp untouchedBy call member))
  constructor
  · apply List.sum_eq_zero
    simp only [List.forall_mem_map]
    exact fun call member => (none call member).1
  · apply List.sum_eq_zero
    simp only [List.forall_mem_map]
    exact fun call member => (none call member).2

theorem process_append (calls : List Call) (call : Call) :
    process (calls ++ [call]) = call.run (process calls) := by
  unfold process
  rw [List.foldl_append]
  rfl

/-- A balance is off by twice what its first call spent. -/
theorem lookup_process (calls : List Call) (contractId address : String) :
    (process calls).lookup (contractId, address) =
      (calls.find? (Call.touches contractId address)).map fun first =>
        (calls.map (Call.received contractId address)).sum -
          (calls.map (Call.spent contractId address)).sum + 2 * first.spent contractId address := by
  induction calls using List.reverseRecOn with
  | nil => rfl
  | append_singleton calls call ih =>
    rw [process_append, lookup_run, ih, List.find?_append, List.find?_singleton, List.map_append,
      List.map_append, List.sum_append, List.sum_append]
    by_cases touches : call.touches contractId address = true
    · rw [if_pos touches, if_pos touches]
      cases found : calls.find? (Call.touches contractId address) with
      | none =>
        obtain ⟨received, spent⟩ := sums_of_untouched found
        rw [received, spent]
        simp
        omega
      | some first =>
        simp
        omega
    · obtain ⟨received, spent⟩ := untouched (Bool.eq_false_iff.mpr touches)
      rw [if_neg touches, if_neg touches, Option.or_none]
      simp [received, spent]

/-- A call that is the first one for nobody it spends from adds what it mints. -/
theorem total_run (holders : Holders) (call : Call) (contractId : String)
    (funded : ∀ address, call.touches contractId address = true →
      holders.lookup (contractId, address) = none → call.spent contractId address = 0) :
    (call.run holders).total (·.1 = contractId) id =
      holders.total (·.1 = contractId) id + call.minted contractId - call.burned contractId := by
  have receives (t : Holders) (c to_ : String) (amount : Nat) :
      (t.upsert (c, to_) amount (· + amount)).total (·.1 = contractId) id =
        t.total (·.1 = contractId) id + if c = contractId then (amount : Int) else 0 := by
    rw [Table.total_upsert]
    cases t.lookup (c, to_) <;> simp
  have spends (t : Holders) (c from_ : String) (amount : Nat)
      (funded : c = contractId → t.lookup (c, from_) = none → (amount : Int) = 0) :
      (t.upsert (c, from_) amount (· - amount)).total (·.1 = contractId) id =
        t.total (·.1 = contractId) id - if c = contractId then (amount : Int) else 0 := by
    rw [Table.total_upsert]
    by_cases same : c = contractId
    · cases stored : t.lookup (c, from_) with
      | none => simp [same, funded same stored]
      | some row =>
        simp [same]
        omega
    · simp [same]
  cases call with
  | applyMint c to_ amount =>
    rw [Call.run, applyMint, receives]
    simp [Call.minted, Call.burned]
  | applyBurn c from_ amount =>
    rw [Call.run, applyBurn, spends]
    · simp [Call.minted, Call.burned]
    · rintro rfl absent
      simpa [Call.touches, Call.spent, absent] using funded from_
  | applyTransfer c from_ to_ amount =>
    rw [Call.run, applyTransfer, receives, spends]
    · simp [Call.minted, Call.burned]
    · rintro rfl absent
      simpa [Call.touches, Call.spent, absent] using funded from_

theorem FundedFirst.init {call : Call} (funded : FundedFirst (calls ++ [call]) contractId) :
    FundedFirst calls contractId ∧ ∀ address, call.touches contractId address = true →
      (process calls).lookup (contractId, address) = none → call.spent contractId address = 0 := by
  constructor
  · intro address first found
    apply funded address first
    rw [List.find?_append, found]
    rfl
  · intro address touches absent
    apply funded address call
    rw [lookup_process, Option.map_eq_none_iff] at absent
    rw [List.find?_append, absent, List.find?_singleton, if_pos touches]
    rfl

theorem FundedFirst.supply (funded : FundedFirst calls contractId) :
    (process calls).total (·.1 = contractId) id =
      (calls.map (Call.minted contractId)).sum - (calls.map (Call.burned contractId)).sum := by
  induction calls using List.reverseRecOn with
  | nil => rfl
  | append_singleton calls call ih =>
    obtain ⟨before, last⟩ := funded.init
    rw [process_append, total_run _ _ _ last, ih before]
    simp only [List.map_append, List.sum_append, List.map_cons, List.map_nil, List.sum_cons, List.sum_nil]
    omega

/-- The holder table keeps the supply and the balances exactly when nobody's first
call spends. -/
theorem conserved_iff (calls : List Call) (contractId : String) :
    Conserved calls contractId ↔ FundedFirst calls contractId := by
  constructor
  · intro conserved address first found
    have balance := conserved.balances address
    rw [lookup_process, found] at balance
    simp only [Option.map_some, Option.getD_some] at balance
    omega
  · intro funded
    constructor
    · exact funded.supply
    · intro address
      rw [lookup_process]
      cases found : calls.find? (Call.touches contractId address) with
      | none =>
        obtain ⟨received, spent⟩ := sums_of_untouched found
        rw [received, spent]
        rfl
      | some first =>
        rw [Option.map_some, Option.getD_some, funded address first found]
        omega

/-- GB sends what it never received. -/
theorem first_transfer_unconserved : ¬ ∀ (calls : List Call) (contractId : String),
    Conserved calls contractId := by
  intro claim
  have conserved := claim [.applyMint "CT" "GA" 100, .applyTransfer "CT" "GB" "GA" 30] "CT"
  have supply := conserved.supply
  revert supply
  decide

end Octraban.TokenHolders
