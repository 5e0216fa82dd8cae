import Mathlib.Analysis.Real.Sqrt
import Octraban.Reputation.Score

/-! governance.ts: voting power that is delegated, in exact numbers and without rounding. -/
namespace Octraban.VotingPower
open JavaScript Scoring StableText

structure VotingAccount where
  address : String
  balance : Scalar

structure Delegation where
  delegator : String
  delegatee : String
  amount : Scalar

structure EffectiveVotingPower (K : Type*) where
  address : String
  ownPower : K
  delegatedIn : K
  delegatedOut : K
  effectivePower : K

/-- The finite number that `toNumber` reads. -/
def numeric (value : Scalar) : ℚ :=
  match toNumber value (.finite 0) with
  | .finite x => x
  | _ => 0

variable {K : Type*} [Field K] [LinearOrder K]

section
variable (localeCompare : String → String → Ordering) (squareRoot : ℚ → K)

def calculateQuadraticVotingPower (balance : Scalar) : K := squareRoot (max 0 (numeric balance))

/-- The own power of each account, the last one of an address. -/
def ownPowers (accounts : List VotingAccount) : OrderedMap String K :=
  accounts.foldl (fun m account => m.set account.address (calculateQuadraticVotingPower squareRoot account.balance)) OrderedMap.empty

def amountOf (ownPower : OrderedMap String K) (delegation : Delegation) : K :=
  match delegation.amount with
  | .undefined | .null => (ownPower.get delegation.delegator).getD 0
  | amount => numeric amount

/-- `delegatedIn` by the delegatee, `delegatedOut` by the delegator. -/
def delegated (side : Delegation → String) (ownPower : OrderedMap String K) (delegations : List Delegation) : OrderedMap String K :=
  delegations.foldl (fun m delegation => m.update (side delegation) 0 (· + amountOf ownPower delegation)) OrderedMap.empty

def powerOf (accounts : List VotingAccount) (delegations : List Delegation) (address : String) : EffectiveVotingPower K :=
  let ownPower := ownPowers squareRoot accounts
  let own := (ownPower.get address).getD 0
  let incoming := ((delegated Delegation.delegatee ownPower delegations).get address).getD 0
  let outgoing := ((delegated Delegation.delegator ownPower delegations).get address).getD 0
  { address, ownPower := own, delegatedIn := incoming, delegatedOut := outgoing, effectivePower := own + incoming - outgoing }

/-- The greater power first, then by address. -/
def strongerFirst (a b : EffectiveVotingPower K) : Bool :=
  if b.effectivePower = a.effectivePower then (localeCompare a.address b.address).isLE else b.effectivePower < a.effectivePower

def addressesOf (accounts : List VotingAccount) (delegations : List Delegation) : List String :=
  Ordered.ofList (accounts.map VotingAccount.address ++ delegations.flatMap fun item => [item.delegator, item.delegatee])

def calculateDelegatedVotingPower (accounts : List VotingAccount) (delegations : List Delegation) : List (EffectiveVotingPower K) :=
  (((addressesOf accounts delegations).mergeSort unitsBefore).map (powerOf squareRoot accounts delegations)).mergeSort
    (strongerFirst localeCompare)

end

/-- What an address delegates as one side, of all its delegations. -/
def moved (side : Delegation → String) (ownPower : OrderedMap String K) (delegations : List Delegation) (address : String) : K :=
  ((delegations.filter fun delegation => side delegation = address).map (amountOf ownPower)).sum

variable {localeCompare : String → String → Ordering} {squareRoot : ℚ → K} {accounts : List VotingAccount}
  {delegations : List Delegation}

/-! ### Amounts -/

omit [LinearOrder K] in
theorem get_delegated (side : Delegation → String) (ownPower : OrderedMap String K) (delegations : List Delegation) (address : String) :
    ((delegated side ownPower delegations).get address).getD 0 = moved side ownPower delegations address := by
  have summed (start : K) (chosen : List Delegation) :
      chosen.foldl (fun total delegation => total + amountOf ownPower delegation) start = start + (chosen.map (amountOf ownPower)).sum := by
    induction chosen generalizing start with
    | nil => exact (add_zero start).symm
    | cons delegation rest ih => rw [List.foldl_cons, ih, List.map_cons, List.sum_cons, add_assoc]
  rw [delegated, OrderedMap.getD_foldl_update, summed, moved]
  exact zero_add _

omit [LinearOrder K] in
theorem effectivePower_powerOf (squareRoot : ℚ → K) (accounts : List VotingAccount) (delegations : List Delegation) (address : String) :
    (powerOf squareRoot accounts delegations address).effectivePower =
      (powerOf squareRoot accounts delegations address).ownPower +
        moved Delegation.delegatee (ownPowers squareRoot accounts) delegations address -
          moved Delegation.delegator (ownPowers squareRoot accounts) delegations address := by
  rw [powerOf, get_delegated, get_delegated]

omit [LinearOrder K] in
/-- The sums by address add up to the sum of all. -/
theorem sum_moved {side : Delegation → String} {ownPower : OrderedMap String K} {addresses : List String} (nodup : addresses.Nodup)
    (known : ∀ delegation ∈ delegations, side delegation ∈ addresses) :
    (addresses.map (moved side ownPower delegations)).sum = (delegations.map (amountOf ownPower)).sum := by
  induction delegations with
  | nil => exact List.sum_eq_zero (by simp [moved])
  | cons delegation rest ih =>
    obtain ⟨listed, others⟩ := List.forall_mem_cons.mp known
    have split (address : String) : moved side ownPower (delegation :: rest) address =
        (if address = side delegation then amountOf ownPower delegation else 0) + moved side ownPower rest address := by
      rw [moved, List.filter_cons]
      by_cases same : address = side delegation
      · simp [same, moved]
      · simp [same, Ne.symm same, moved]
    have own : (addresses.map fun address => if address = side delegation then amountOf ownPower delegation else 0).sum =
        amountOf ownPower delegation := by
      rw [List.sum_map_ite_eq addresses (fun _ => amountOf ownPower delegation) (fun _ => 0) (side delegation),
        List.count_eq_one_of_mem nodup listed, one_nsmul, sub_zero, List.map_const', List.sum_replicate, nsmul_zero, add_zero]
    rw [List.map_congr_left fun address _ => split address, List.sum_map_add, own, ih others, List.map_cons, List.sum_cons]

theorem perm_calculateDelegatedVotingPower :
    (calculateDelegatedVotingPower localeCompare squareRoot accounts delegations).Perm
      ((addressesOf accounts delegations).map (powerOf squareRoot accounts delegations)) :=
  (List.mergeSort_perm _ _).trans ((List.mergeSort_perm _ _).map _)

theorem exists_of_mem {power : EffectiveVotingPower K}
    (member : power ∈ calculateDelegatedVotingPower localeCompare squareRoot accounts delegations) :
    powerOf squareRoot accounts delegations power.address = power := by
  obtain ⟨address, -, rfl⟩ := List.mem_map.mp (perm_calculateDelegatedVotingPower.mem_iff.mp member)
  rfl

/-- What is delegated is only moved. -/
theorem sum_effectivePower :
    ((calculateDelegatedVotingPower localeCompare squareRoot accounts delegations).map EffectiveVotingPower.effectivePower).sum =
      ((calculateDelegatedVotingPower localeCompare squareRoot accounts delegations).map EffectiveVotingPower.ownPower).sum := by
  have listed (side : Delegation → String)
      (sides : ∀ delegation, side delegation = delegation.delegator ∨ side delegation = delegation.delegatee) :
      ∀ delegation ∈ delegations, side delegation ∈ addressesOf accounts delegations := by
    intro delegation member
    refine Ordered.mem_ofList.mpr (List.mem_append_right _ (List.mem_flatMap.mpr ⟨delegation, member, ?_⟩))
    rcases sides delegation with same | same
    · exact same ▸ List.mem_cons_self
    · exact same ▸ List.mem_cons_of_mem _ List.mem_cons_self
  have nodup : (addressesOf accounts delegations).Nodup := Ordered.nodup_ofList
  have total (side : Delegation → String) (known : ∀ delegation ∈ delegations, side delegation ∈ addressesOf accounts delegations) :
      ((addressesOf accounts delegations).map (moved side (ownPowers squareRoot accounts) delegations)).sum =
        (delegations.map (amountOf (ownPowers squareRoot accounts))).sum := sum_moved nodup known
  have received := total Delegation.delegatee (listed _ fun _ => .inr rfl)
  have given := total Delegation.delegator (listed _ fun _ => .inl rfl)
  have perm : (calculateDelegatedVotingPower localeCompare squareRoot accounts delegations).Perm _ :=
    perm_calculateDelegatedVotingPower
  rw [(perm.map _).sum_eq, (perm.map _).sum_eq, List.map_map, List.map_map]
  apply add_right_cancel (b := (delegations.map (amountOf (ownPowers squareRoot accounts))).sum)
  nth_rewrite 1 [← given]
  rw [← received, ← List.sum_map_add, ← List.sum_map_add]
  refine congrArg List.sum (List.map_congr_left fun address _ => ?_)
  rw [Function.comp_apply, Function.comp_apply, effectivePower_powerOf, sub_add_cancel]

/-- Delegation moves power, and an address keeps some just where it delegates no more than it has and gets. -/
theorem delegation_conserves [IsStrictOrderedRing K] (localeCompare : String → String → Ordering) (squareRoot : ℚ → K)
    (accounts : List VotingAccount) (delegations : List Delegation) :
    ((calculateDelegatedVotingPower localeCompare squareRoot accounts delegations).map EffectiveVotingPower.effectivePower).sum =
        ((calculateDelegatedVotingPower localeCompare squareRoot accounts delegations).map EffectiveVotingPower.ownPower).sum ∧
      ∀ power ∈ calculateDelegatedVotingPower localeCompare squareRoot accounts delegations,
        0 ≤ power.effectivePower ↔
          moved Delegation.delegator (ownPowers squareRoot accounts) delegations power.address ≤
            power.ownPower + moved Delegation.delegatee (ownPowers squareRoot accounts) delegations power.address := by
  refine ⟨sum_effectivePower, fun power member => ?_⟩
  have kept := effectivePower_powerOf squareRoot accounts delegations power.address
  rw [exists_of_mem member] at kept
  rw [kept, sub_nonneg]

/-- `Math.sqrt`, exactly. -/
noncomputable def sqrt (x : ℚ) : ℝ := √(x : ℝ)

/-- A whole power that is delegated once. -/
theorem delegation_conserves_once :
    ((calculateDelegatedVotingPower compare sqrt [⟨"a", .number 100⟩] [⟨"a", "b", .undefined⟩]).map
          EffectiveVotingPower.effectivePower).sum =
        ((calculateDelegatedVotingPower compare sqrt [⟨"a", .number 100⟩] [⟨"a", "b", .undefined⟩]).map
          EffectiveVotingPower.ownPower).sum ∧
      ∀ power ∈ calculateDelegatedVotingPower compare sqrt [⟨"a", .number 100⟩] [⟨"a", "b", .undefined⟩],
        0 ≤ power.effectivePower ↔
          moved Delegation.delegator (ownPowers sqrt [⟨"a", .number 100⟩]) [⟨"a", "b", .undefined⟩] power.address ≤
            power.ownPower +
              moved Delegation.delegatee (ownPowers sqrt [⟨"a", .number 100⟩]) [⟨"a", "b", .undefined⟩] power.address :=
  delegation_conserves compare sqrt [⟨"a", .number 100⟩] [⟨"a", "b", .undefined⟩]

theorem get_ownPowers_one : (ownPowers sqrt [⟨"a", .number 100⟩]).get "a" = some 10 := by
  have root : calculateQuadraticVotingPower sqrt (.number 100) = 10 := by
    have balance : max 0 (numeric (.number 100)) = 10 ^ 2 := by
      rw [numeric, toNumber]
      norm_num
    rw [calculateQuadraticVotingPower, balance, sqrt, Rat.cast_pow, Rat.cast_ofNat]
    exact Real.sqrt_sq (by norm_num)
  rw [ownPowers, List.foldl_cons, List.foldl_nil, OrderedMap.get_set_self, root]

/-- A whole power that is delegated twice. -/
theorem delegation_overdraws : ∃ power ∈ calculateDelegatedVotingPower compare sqrt [⟨"a", .number 100⟩]
    [⟨"a", "b", .undefined⟩, ⟨"a", "c", .undefined⟩], power.ownPower = 10 ∧ power.effectivePower = -10 := by
  refine ⟨powerOf _ _ _ "a", perm_calculateDelegatedVotingPower.mem_iff.mpr (List.mem_map_of_mem ?_), ?_, ?_⟩
  · exact Ordered.mem_ofList.mpr List.mem_cons_self
  · rw [powerOf, get_ownPowers_one]
    rfl
  · rw [effectivePower_powerOf, powerOf, get_ownPowers_one]
    simp [moved, amountOf, get_ownPowers_one]

end Octraban.VotingPower
