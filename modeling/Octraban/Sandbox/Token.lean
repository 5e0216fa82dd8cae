import Octraban.Core.Decimal
import Octraban.Core.Objects
import Octraban.Core.Transition
import Octraban.Core.Value

/-! sandbox/runtime.ts: the functions of a SEP-41 token contract, and the check of its supply.
A text that `Prisma.Decimal` has written stands for its value. -/
namespace Octraban.Token
open Transition System JavaScript

/-- The significant digits that `Prisma.Decimal` keeps. -/
def precision : Nat := 20

def decimalPlus (left right : ℚ) : ℚ := Decimal.plus precision left right

def decimalMinus (left right : ℚ) : ℚ := Decimal.minus precision left right

structure ContractState where
  paused : Bool
  totalSupply : ℚ
  balances : OrderedMap String ℚ
  admin : Option String

def templateStateForDeploy : ContractState := ⟨false, 0, OrderedMap.empty, none⟩

inductive Event where
  | mint (to_ : String) (amount : ℚ)
  | burn (from_ : String) (amount : ℚ)
  | transfer (from_ to_ : String) (amount : ℚ)

inductive Result where
  | null
  | minted (amount : ℚ)
  | burned (amount : ℚ)
  | transferred (amount : ℚ)
  | balance (held : Option ℚ)

structure CallOutcome where
  result : Result
  error : Option String
  events : List Event
  stateAfter : ContractState

/-- `balances[account] ?? '0'`, when it is the text of a number and no inherited field. -/
def balanceOf (balances : OrderedMap String ℚ) (account : String) : Option ℚ :=
  match balances.get account with
  | some held => some held
  | none => if account ∈ inherited then none else some 0

def normalizeArgs : Value → Value
  | .object fields => .object fields
  | args => .object [("value", args)]

/-- `String(args[name] ?? sourceAccount)` -/
def party (args : Value) (name sourceAccount : String) : String :=
  ((args.get name).orElse (.text sourceAccount)).string

/-- `args.amount ?? args.value ?? '0'` -/
def amountOf (args : Value) : Value := ((args.get "amount").orElse (args.get "value")).orElse (.text "0")

/-- Nothing when a number is made of what is none: the call throws. -/
def executeTemplateFunction (decimal : Value → Option ℚ) (state : ContractState) (functionName : String)
    (args : Value) (sourceAccount : String) : Option CallOutcome :=
  (decimal (amountOf args)).bind fun amount =>
    let from_ := party args "from" sourceAccount
    let to_ := party args "to" sourceAccount
    match functionName with
    | "initialize" => some ⟨.null, none, [], { state with admin := some (party args "admin" sourceAccount) }⟩
    | "mint" =>
      (balanceOf state.balances to_).map fun held => ⟨.minted amount, none, [.mint to_ amount], { state with
        balances := state.balances.set to_ (decimalPlus held amount)
        totalSupply := decimalPlus state.totalSupply amount }⟩
    | "burn" =>
      (balanceOf state.balances from_).map fun held => ⟨.burned amount, none, [.burn from_ amount], { state with
        balances := state.balances.set from_ (decimalMinus held amount)
        totalSupply := decimalMinus state.totalSupply amount }⟩
    | "transfer" =>
      (balanceOf state.balances from_).bind fun held =>
        let paid := state.balances.set from_ (decimalMinus held amount)
        (balanceOf paid to_).map fun received => ⟨.transferred amount, none, [.transfer from_ to_ amount], { state with
          balances := paid.set to_ (decimalPlus received amount) }⟩
    | "balance_of" =>
      some ⟨.balance (balanceOf state.balances (party args "owner" sourceAccount)), none, [], state⟩
    | "pause" => some ⟨.null, none, [], { state with paused := true }⟩
    | "unpause" => some ⟨.null, none, [], { state with paused := false }⟩
    | _ => some ⟨.null, some ("Unsupported token function " ++ functionName), [], state⟩

/-- A call that throws or is not successful leaves the contract as it is. -/
def call (decimal : Value → Option ℚ) (state : ContractState) (functionName : String) (args : Value)
    (sourceAccount : String) : ContractState :=
  match executeTemplateFunction decimal state functionName (normalizeArgs args) sourceAccount with
  | some outcome => if outcome.error = none then outcome.stateAfter else state
  | none => state

/-- `invariant.includes('balance') || invariant.includes('totalSupply')` -/
def checksSupply (invariant : String) : Bool :=
  "balance".toList <:+: invariant.toList || "totalSupply".toList <:+: invariant.toList

def heldValues (state : ContractState) : List ℚ := (ownEntries state.balances).map Prod.snd

def verifyInvariant (state : ContractState) (invariant : String) : Bool :=
  let summedBalances := (heldValues state).foldl decimalPlus 0
  if checksSupply invariant then state.totalSupply = summedBalances else true

/-- `verified` lists what `verifyInvariant` has answered. -/
structure State where
  contract : ContractState
  verified : List Bool

inductive Act where
  | call (functionName : String) (args : Value) (sourceAccount : String)
  | verifyInvariant (invariant : String)

def deployed : State := ⟨templateStateForDeploy, []⟩

def token (decimal : Value → Option ℚ) : System State Act where
  initial s := s = deployed
  step s
    | .call functionName args sourceAccount =>
      some { s with contract := call decimal s.contract functionName args sourceAccount }
    | .verifyInvariant invariant =>
      some { s with verified := s.verified ++ [verifyInvariant s.contract invariant] }

/-- The exact sum of all balances. -/
def total (state : ContractState) : ℚ := (state.balances.entries.map Prod.snd).sum

structure Conserved (s : State) : Prop where
  supply : total s.contract = s.contract.totalSupply
  passed : ∀ answer ∈ s.verified, answer = true

/-- Exact sums and differences that a step rounds, those of balances and those of the supply. -/
structure Rounded where
  balances : List ℚ
  supply : List ℚ

def Rounded.none : Rounded := ⟨[], []⟩

def rounded (decimal : Value → Option ℚ) (state : ContractState) : Act → Rounded
  | .verifyInvariant invariant =>
    if checksSupply invariant then ⟨Decimal.sums precision 0 (heldValues state), []⟩ else .none
  | .call functionName args sourceAccount =>
    let from_ := party (normalizeArgs args) "from" sourceAccount
    let to_ := party (normalizeArgs args) "to" sourceAccount
    (decimal (amountOf (normalizeArgs args))).elim .none fun amount =>
      match functionName with
      | "mint" => (balanceOf state.balances to_).elim .none fun held =>
        ⟨[held + amount], [state.totalSupply + amount]⟩
      | "burn" => (balanceOf state.balances from_).elim .none fun held =>
        ⟨[held - amount], [state.totalSupply - amount]⟩
      | "transfer" => (balanceOf state.balances from_).elim .none fun held =>
        (balanceOf (state.balances.set from_ (decimalMinus held amount)) to_).elim .none fun received =>
          ⟨[held - amount, received + amount], []⟩
      | _ => .none

/-- How far rounding moves the balances from the supply. -/
def Rounded.drift (r : Rounded) : ℚ :=
  (r.balances.map (Decimal.error precision)).sum - (r.supply.map (Decimal.error precision)).sum

variable {decimal : Value → Option ℚ} {s t : State} {state : ContractState} {a : Act}

theorem balanceOf_eq (read : balanceOf balances account = some held) : (balances.get account).getD 0 = held := by
  unfold balanceOf at read
  cases known : balances.get account with
  | some value =>
    rw [known] at read
    exact Option.some.inj read
  | none =>
    rw [known] at read
    dsimp only at read
    split at read
    · cases read
    · exact Option.some.inj read

/-- What a balance becomes is added to all of them, less what it was. -/
theorem sum_set_balance (read : balanceOf balances account = some held) (next : ℚ) :
    ((balances.set account next).entries.map Prod.snd).sum = (balances.entries.map Prod.snd).sum - held + next := by
  rw [OrderedMap.sum_set, balanceOf_eq read]

theorem drift_none : Rounded.none.drift = 0 := by
  simp [Rounded.none, Rounded.drift]

theorem drift_pair (x y : ℚ) :
    (Rounded.mk [x] [y]).drift = Decimal.error precision x - Decimal.error precision y := by
  simp [Rounded.drift]

/-- How far a state is from conserving the supply. -/
def gap (state : ContractState) : ℚ := total state - state.totalSupply

theorem gap_mint (read : balanceOf state.balances account = some held) :
    gap { state with
      balances := state.balances.set account (decimalPlus held amount)
      totalSupply := decimalPlus state.totalSupply amount } =
    gap state + (Rounded.mk [held + amount] [state.totalSupply + amount]).drift := by
  unfold gap total
  dsimp only
  rw [sum_set_balance read, drift_pair, decimalPlus, decimalPlus, Decimal.plus_eq, Decimal.plus_eq]
  ring

theorem gap_burn (read : balanceOf state.balances account = some held) :
    gap { state with
      balances := state.balances.set account (decimalMinus held amount)
      totalSupply := decimalMinus state.totalSupply amount } =
    gap state + (Rounded.mk [held - amount] [state.totalSupply - amount]).drift := by
  unfold gap total
  dsimp only
  rw [sum_set_balance read, drift_pair, decimalMinus, decimalMinus, Decimal.minus_eq, Decimal.minus_eq]
  ring

/-- The second balance is read when the first is written, also when they are one. -/
theorem gap_transfer (paying : balanceOf state.balances from_ = some held)
    (paid : balanceOf (state.balances.set from_ (decimalMinus held amount)) to_ = some received) :
    gap { state with
      balances := (state.balances.set from_ (decimalMinus held amount)).set to_ (decimalPlus received amount) } =
    gap state + (Rounded.mk [held - amount, received + amount] []).drift := by
  unfold gap total Rounded.drift
  dsimp only
  rw [sum_set_balance paid, sum_set_balance paying, decimalMinus, decimalPlus, Decimal.minus_eq, Decimal.plus_eq]
  simp only [List.map_cons, List.map_nil, List.sum_cons, List.sum_nil]
  ring

theorem call_eq (decimal : Value → Option ℚ) (state : ContractState) (functionName : String) (args : Value)
    (sourceAccount : String) : call decimal state functionName args sourceAccount =
      (executeTemplateFunction decimal state functionName (normalizeArgs args) sourceAccount).elim state
        fun outcome => if outcome.error = none then outcome.stateAfter else state := by
  unfold call
  cases executeTemplateFunction decimal state functionName (normalizeArgs args) sourceAccount <;> rfl

theorem gap_kept {next : ContractState} (balances : next.balances = state.balances)
    (supply : next.totalSupply = state.totalSupply) : gap next = gap state + Rounded.none.drift := by
  rw [drift_none, add_zero, gap, gap, total, total, balances, supply]

theorem gap_call (decimal : Value → Option ℚ) (state : ContractState) (functionName : String) (args : Value)
    (sourceAccount : String) :
    gap (call decimal state functionName args sourceAccount) =
      gap state + (rounded decimal state (.call functionName args sourceAccount)).drift := by
  rw [call_eq]
  unfold executeTemplateFunction rounded
  dsimp only
  cases decimal (amountOf (normalizeArgs args)) with
  | none => exact gap_kept rfl rfl
  | some amount =>
    rw [Option.bind_some, Option.elim_some]
    split
    case h_1 | h_5 | h_6 | h_7 => exact gap_kept rfl rfl
    case h_2 =>
      cases read : balanceOf state.balances (party (normalizeArgs args) "to" sourceAccount) with
      | none => exact gap_kept rfl rfl
      | some held => exact gap_mint read
    case h_3 =>
      cases read : balanceOf state.balances (party (normalizeArgs args) "from" sourceAccount) with
      | none => exact gap_kept rfl rfl
      | some held => exact gap_burn read
    case h_4 =>
      cases paying : balanceOf state.balances (party (normalizeArgs args) "from" sourceAccount) with
      | none => exact gap_kept rfl rfl
      | some held =>
        rw [Option.bind_some]
        cases paid : balanceOf (state.balances.set (party (normalizeArgs args) "from" sourceAccount)
            (decimalMinus held amount)) (party (normalizeArgs args) "to" sourceAccount) with
        | none =>
          simp only [paid, Option.elim_some]
          exact gap_kept rfl rfl
        | some received =>
          simp only [paid, Option.elim_some]
          exact gap_transfer paying paid
    case h_8 _ mint burn transfer _ _ _ =>
      -- an unsupported function is no success
      rw [Option.elim_some, if_neg (Option.some_ne_none _)]
      split
      · exact absurd rfl mint
      · exact absurd rfl burn
      · exact absurd rfl transfer
      · exact gap_kept rfl rfl

theorem sum_heldValues (state : ContractState) : (heldValues state).sum = total state :=
  ((perm_ownEntries state.balances).map Prod.snd).sum_eq

/-- When the supply is the sum of all balances, the check fails only by its own rounding. -/
theorem verifyInvariant_iff (supply : total state = state.totalSupply) (invariant : String) :
    verifyInvariant state invariant = true ↔ (rounded decimal state (.verifyInvariant invariant)).drift = 0 := by
  unfold verifyInvariant rounded
  cases checks : checksSupply invariant with
  | false => simp [checks, drift_none]
  | true =>
    have summed : (heldValues state).foldl decimalPlus 0 = state.totalSupply +
        ((Decimal.sums precision 0 (heldValues state)).map (Decimal.error precision)).sum := by
      rw [← supply, ← sum_heldValues, ← zero_add (heldValues state).sum]
      exact Decimal.foldl_plus precision 0 (heldValues state)
    simp only [checks, if_true, summed, decide_eq_true_eq, Rounded.drift, List.map_nil, List.sum_nil, sub_zero]
    exact left_eq_add

theorem conserved_deployed : Conserved deployed := ⟨rfl, fun _ impossible => (List.not_mem_nil impossible).elim⟩

/-- A step conserves the supply exactly when its roundings make up for each other. -/
theorem conserved_step (conserved : Conserved s) (stepped : (token decimal).step s a = some t) :
    Conserved t ↔ (rounded decimal s.contract a).drift = 0 := by
  obtain ⟨supply, passed⟩ := conserved
  cases a with
  | call functionName args sourceAccount =>
    cases stepped
    have moved := gap_call decimal s.contract functionName args sourceAccount
    rw [gap, gap, supply, sub_self, zero_add] at moved
    constructor
    · rintro ⟨supply, _⟩
      exact moved.symm.trans (sub_eq_zero.mpr supply)
    · intro none
      exact ⟨sub_eq_zero.mp (moved.trans none), passed⟩
  | verifyInvariant invariant =>
    cases stepped
    rw [← verifyInvariant_iff supply]
    constructor
    · rintro ⟨_, passed⟩
      exact passed _ (List.mem_append_right _ List.mem_cons_self)
    · intro answer
      refine ⟨supply, fun known member => ?_⟩
      rcases List.mem_append.mp member with before | new
      · exact passed known before
      · exact (List.mem_singleton.mp new).trans answer

/-- Numbers that need no rounding are not moved. -/
theorem drift_of_fits {r : Rounded} (balances : ∀ x ∈ r.balances, Decimal.Fits precision x)
    (supply : ∀ x ∈ r.supply, Decimal.Fits precision x) : r.drift = 0 := by
  have exact (numbers : List ℚ) (fits : ∀ x ∈ numbers, Decimal.Fits precision x) :
      (numbers.map (Decimal.error precision)).sum = 0 := by
    refine List.sum_eq_zero fun e member => ?_
    obtain ⟨x, listed, rfl⟩ := List.mem_map.mp member
    exact Decimal.error_of_fits (fits x listed)
  rw [Rounded.drift, exact _ balances, exact _ supply, sub_zero]

theorem supply_conserved_iff (decimal : Value → Option ℚ) (labels : List Act) :
    ((token decimal).Along Conserved deployed labels ↔
      (token decimal).Guarded (fun s a => (rounded decimal s.contract a).drift = 0) deployed labels) ∧
    ((token decimal).Guarded (fun s a => (∀ x ∈ (rounded decimal s.contract a).balances, Decimal.Fits precision x) ∧
        ∀ x ∈ (rounded decimal s.contract a).supply, Decimal.Fits precision x) deployed labels →
      (token decimal).Along Conserved deployed labels) := by
  constructor
  · refine along_iff_guarded id ?_ ?_ conserved_deployed labels
    · intro s a t conserved none stepped
      exact (conserved_step conserved stepped).mpr none
    · intro s a t conserved stepped after
      exact (conserved_step conserved stepped).mp after
  · refine along_of_guarded Conserved id ?_ conserved_deployed
    intro s a t conserved fits stepped
    exact (conserved_step conserved stepped).mpr (drift_of_fits fits.1 fits.2)

/-- Texts of digits and finite numbers. -/
def digits : Value → Option ℚ
  | .text text => some (JavaScript.value text.toList)
  | .number (.finite x) => some x
  | _ => none

def mint (to_ amount : String) : Act := .call "mint" (.object [("to", .text to_), ("amount", .text amount)]) "deployer"

/-- The supply loses the four units of each small mint, their sum is kept in a balance. -/
theorem small_mints_lost : ∃ s, (token digits).run deployed
    [mint "alice" "100000000000000000000", mint "bob" "4", mint "bob" "4", .verifyInvariant "balance"] = some s ∧
    s.contract.totalSupply = 10 ^ 20 ∧ total s.contract = 10 ^ 20 + 8 ∧ s.verified = [false] := by
  refine ⟨_, rfl, ?_⟩
  decide +kernel

end Octraban.Token
