import Octraban.Reputation.OrderIndependence

/-! Where the penalty, the assessment and the badge of an address tell the same of its risk. -/
namespace Octraban.Scoring
open JavaScript Reputation StableText

structure Badge where
  id : String
  name : String
  description : String
  criteria : String
  verifiable : Bool

def badge (id name description criteria : String) : Badge := { id, name, description, criteria, verifiable := true }

section
variable (runtime : Runtime)

def earnBadges (address : String) (chainData : List ChainReputationData) : List Badge :=
  let canonical := canonicalAddress address
  let items := chainData.filter fun item => canonicalAddress item.address = canonical
  let zero := Number.finite 0
  let txCount := sum (items.map fun item => toNumber item.successfulTransactionCount (toNumber item.transactionCount zero))
  let uniqueContracts := sum (items.map fun item => toNumber item.uniqueContractsInteracted zero)
  let governanceVotes := sum (items.map fun item => toNumber item.governanceVotes zero)
  let validAttestations := (items.map countValidAttestations).sum
  let validCredentials := (items.map (countValidCredentials runtime)).sum
  let activeChains := getActiveChains items
  let sybil := assessSybilRisk runtime canonical items
  let earned :=
    (if (Number.finite 10).le txCount then
      [badge "pioneer" "Pioneer" "Completed at least 10 successful on-chain transactions."
        (numeral runtime txCount ++ " successful transactions")] else []) ++
    (if 3 ≤ activeChains.length then
      [badge "multichain" "Multichain" "Active on three or more chains." (", ".intercalate activeChains)] else []) ++
    (if (Number.finite 5).le uniqueContracts then
      [badge "builder" "Builder" "Interacted with at least five unique contracts."
        (numeral runtime uniqueContracts ++ " contracts")] else []) ++
    (if (Number.finite 3).le governanceVotes then
      [badge "governor" "Governor" "Cast at least three governance votes." (numeral runtime governanceVotes ++ " votes")]
      else []) ++
    (if 2 ≤ validAttestations ∧ 1 ≤ validCredentials then
      [badge "trusted" "Trusted" "Holds verifiable attestations and credentials."
        (numeral runtime (count validAttestations) ++ " attestations and " ++ numeral runtime (count validCredentials) ++
          " credentials")] else []) ++
    (if !sybil.isSuspicious then
      [badge "sybil_resistant" "Sybil Resistant" "Does not meet sybil resistance thresholds." "risk below 0.5"] else [])
  earned.mergeSort fun a b => (runtime.localeCompare a.id b.id).isLE

/-- The number that stands in a field. -/
def reading : Scalar → Option ℚ
  | .number x => some x
  | .text content =>
    if trim content ≠ "" then
      match number content with
      | .finite x => some x
      | _ => none
    else none
  | _ => none

/-- The items of an address in the order of their chains. -/
def byChain (address : String) (chainData : List ChainReputationData) : List ChainReputationData :=
  (itemsOf address chainData).mergeSort fun a b => (runtime.localeCompare a.chainId b.chainId).isLE

def transactions (items : List ChainReputationData) : Number :=
  sum (items.map fun item =>
    (toNumber item.successfulTransactionCount (.finite 0)).max (toNumber item.transactionCount (.finite 0)))

/-- What raises the risk of items that state none. -/
def warnings (items : List ChainReputationData) : List Bool :=
  [2 ≤ items.length && (transactions items).lt (.finite 5),
    3 ≤ items.length && (transactions items).lt (.finite 8),
    (items.map countValidAttestations).sum = 0 && (items.map (countValidCredentials runtime)).sum = 0 &&
      (transactions items).lt (.finite 10),
    (sum (items.map fun item => toNumber item.uniqueContractsInteracted (.finite 0))).lt (.finite 2) &&
      (Number.finite 0).lt (transactions items)]

/-- A risk of at least one half is stated, or none at all and two warnings hold. -/
def Suspected (items : List ChainReputationData) : Prop :=
  (∃ item ∈ items, ∃ risk ∈ reading item.sybilRisk, 1 / 2 ≤ risk) ∨
    (∀ item ∈ items, ∀ risk ∈ reading item.sybilRisk, risk < 0) ∧ 2 ≤ (warnings runtime items).count true

/-- A member of a cluster states no risk. -/
def Clustered (items : List ChainReputationData) : Prop :=
  ∃ item ∈ items, truthy item.sybilCluster = true ∧ reading item.sybilRisk = none

def Penalized (result : ScoreResult) : Prop := ∃ part ∈ result.breakdown, part.signal = "sybil_resistance"

def Resistant (badges : List Badge) : Prop := ∃ badge ∈ badges, badge.id = "sybil_resistant"

/-- Penalty and badge follow the assessment. -/
def VerdictsAgree (address : String) (chainData : List ChainReputationData) : Prop :=
  let result := computeReputationScore runtime address chainData
  (Penalized result ↔ result.sybil.isSuspicious = true) ∧
    (Resistant (earnBadges runtime address chainData) ↔ result.sybil.isSuspicious = false)

end

variable {runtime : Runtime} {address : String} {chainData : List ChainReputationData}

/-! ### The assessment -/

theorem toNumber_eq (value : Scalar) (fallback : Number) : toNumber value fallback = (reading value).elim fallback Number.finite := by
  cases value with
  | text content =>
    rw [toNumber, reading]
    by_cases blank : trim content ≠ ""
    · rw [if_pos blank, if_pos blank]
      cases number content <;> rfl
    · rw [if_neg blank, if_neg blank]
      rfl
  | _ => rfl

theorem max_finite (x y : ℚ) : (Number.finite x).max (.finite y) = .finite (max x y) := by
  rw [Number.max, if_neg (by simp), max_def]
  simp only [Number.le, decide_eq_true_eq]
  split <;> rfl

theorem min_finite (x y : ℚ) : (Number.finite x).min (.finite y) = .finite (min x y) := by
  rw [Number.min, if_neg (by simp), min_def]
  simp only [Number.le, decide_eq_true_eq]
  split <;> rfl

theorem half_le_clamp (x : ℚ) : (Number.finite (1 / 2)).le (clamp (.finite x) (.finite 0) (.finite 1)) = true ↔ 1 / 2 ≤ x := by
  rw [clamp, max_finite, min_finite, Number.le, decide_eq_true_eq, le_min_iff, le_max_iff]
  norm_num

theorem greatest_finite (x : ℚ) (xs : List ℚ) : greatest ((x :: xs).map Number.finite) = .finite (xs.foldl max x) := by
  have later (y : ℚ) : (xs.map Number.finite).foldl Number.max (.finite y) = .finite (xs.foldl max y) := by
    induction xs generalizing y with
    | nil => rfl
    | cons z zs ih => rw [List.map_cons, List.foldl_cons, max_finite, ih, List.foldl_cons]
  exact later x

theorem le_foldl_max {bound x : ℚ} {xs : List ℚ} : bound ≤ xs.foldl max x ↔ ∃ y ∈ x :: xs, bound ≤ y := by
  induction xs generalizing x with
  | nil => simp
  | cons y ys ih =>
    rw [List.foldl_cons, ih]
    simp only [List.mem_cons, exists_eq_or_imp, le_max_iff, or_assoc]

/-- The risks that count for the assessment are the readings that are not negative. -/
theorem explicit_eq (items : List ChainReputationData) :
    (items.map fun item => toNumber item.sybilRisk (.finite (-1))).filter (Number.finite 0).le =
      (items.filterMap fun item => (reading item.sybilRisk).filter (0 ≤ ·)).map Number.finite := by
  induction items with
  | nil => rfl
  | cons item rest ih =>
    rw [List.map_cons, toNumber_eq]
    cases risk : reading item.sybilRisk with
    | none =>
      rw [List.filterMap_cons_none (by rw [risk]; rfl)]
      exact (List.filter_cons_of_neg (by decide)).trans ih
    | some x =>
      by_cases negative : 0 ≤ x
      · rw [List.filterMap_cons_some (b := x) (by rw [risk]; simp [negative]), List.map_cons, ← ih]
        exact List.filter_cons_of_pos (by simpa [Number.le] using negative)
      · rw [List.filterMap_cons_none (by rw [risk]; simpa using negative)]
        exact (List.filter_cons_of_neg (by simpa [Number.le] using negative)).trans ih

theorem half_le_raised : ∀ few several unattested narrow : Bool,
    let raise (condition : Bool) (step : ℚ) (risk : Number) : Number := if condition then risk.add (roundRat step) else risk
    (Number.finite (1 / 2)).le (clamp (raise narrow (15 / 100) (raise unattested (2 / 10) (raise several (2 / 10)
      (raise few (25 / 100) (roundRat (15 / 100)))))) (.finite 0) (.finite 1)) =
      decide (2 ≤ [few, several, unattested, narrow].count true) := by
  decide +kernel

theorem half_le_signals (items : List ChainReputationData) :
    (Number.finite (1 / 2)).le (calculateSybilRiskFromSignals runtime items) = true ↔ 2 ≤ (warnings runtime items).count true :=
  (Bool.eq_iff_iff.mp (half_le_raised _ _ _ _)).trans decide_eq_true_iff

theorem mem_explicit {items : List ChainReputationData} {x : ℚ} :
    x ∈ items.filterMap (fun item => (reading item.sybilRisk).filter (0 ≤ ·)) ↔
      ∃ item ∈ items, x ∈ reading item.sybilRisk ∧ 0 ≤ x := by
  simp only [List.mem_filterMap, Option.filter_eq_some_iff, decide_eq_true_eq, Option.mem_def]

theorem isSuspicious_iff (address : String) (items : List ChainReputationData) :
    (assessSybilRisk runtime (canonicalAddress address) items).isSuspicious = true ↔
      Suspected runtime (byChain runtime address items) := by
  have chosen : ((items.filter fun item => canonicalAddress item.address = canonicalAddress (canonicalAddress address)).mergeSort
      fun a b => (runtime.localeCompare a.chainId b.chainId).isLE) = byChain runtime address items := by
    rw [canonicalAddress_idem]
    rfl
  rw [assessSybilRisk]
  dsimp only
  rw [chosen, explicit_eq, Suspected]
  generalize byChain runtime address items = items
  cases risks : items.filterMap fun item => (reading item.sybilRisk).filter (0 ≤ ·) with
  | nil =>
    have silent : ∀ item ∈ items, ∀ risk ∈ reading item.sybilRisk, risk < 0 := by
      intro item member risk stated
      by_contra positive
      have listed := mem_explicit.mpr ⟨item, member, stated, not_lt.mp positive⟩
      rw [risks] at listed
      cases listed
    rw [List.map_nil, if_neg (by simp), half_le_signals]
    constructor
    · exact fun raised => .inr ⟨silent, raised⟩
    · rintro (⟨item, member, risk, stated, high⟩ | ⟨-, raised⟩)
      · linarith [silent item member risk stated]
      · exact raised
  | cons x xs =>
    rw [if_pos (by simp), greatest_finite, Number.le, decide_eq_true_eq, le_foldl_max, ← risks]
    constructor
    · rintro ⟨y, listed, high⟩
      obtain ⟨item, member, stated, -⟩ := mem_explicit.mp listed
      exact .inl ⟨item, member, y, stated, high⟩
    · rintro (⟨item, member, risk, stated, high⟩ | ⟨silent, -⟩)
      · exact ⟨risk, mem_explicit.mpr ⟨item, member, stated, by linarith⟩, high⟩
      · obtain ⟨item, member, stated, positive⟩ := mem_explicit.mp (risks ▸ List.mem_cons_self)
        linarith [silent item member x stated]

/-- The items that the assessment of the score looks at are those of the badges. -/
theorem byChain_itemsOf (collation : Std.TransCmp runtime.localeCompare) :
    byChain runtime address (itemsOf address (sortItems runtime chainData)) = byChain runtime address chainData := by
  have chains := Sorting.transCmp_on runtime.localeCompare ChainReputationData.chainId
  have once : itemsOf address (itemsOf address (sortItems runtime chainData)) = itemsOf address (sortItems runtime chainData) := by
    rw [itemsOf, itemsOf, List.filter_filter]
    simp only [Bool.and_self]
  rw [byChain, byChain, once]
  have perm : (itemsOf address (sortItems runtime chainData)).Perm (itemsOf address chainData) :=
    (List.mergeSort_perm _ _).filter _
  have row (a : ChainReputationData) (items : List ChainReputationData) := @Sorting.filter_tied _ _ chains a items
  refine Sorting.eq_of_tied (((List.mergeSort_perm _ _).trans perm).trans (List.mergeSort_perm _ _).symm)
    (Sorting.pairwise_isLE _) (Sorting.pairwise_isLE _) fun a => ?_
  rw [row, row, itemsOf, itemsOf, List.filter_filter, List.filter_filter]
  refine Sorting.filter_mergeSort (fun _ _ _ => Std.TransCmp.isLE_trans) Sorting.isLE_total (fun x y left right => ?_) chainData
  simp only [Bool.and_eq_true, decide_eq_true_eq] at left right
  have tied : compareItems runtime x y = .eq := by
    refine Ordering.then_eq_eq.mpr ⟨Std.TransCmp.eq_trans left.1 (Std.OrientedCmp.eq_symm right.1), ?_⟩
    rw [left.2, right.2]
    exact Std.ReflCmp.compare_self
  rw [tied]
  rfl

/-! ### The penalty -/

/-- What the score of one chain takes for a risk. -/
def Risky (item : ChainReputationData) : Prop :=
  match reading item.sybilRisk with
  | some risk => 1 / 2 ≤ risk
  | none => truthy item.sybilCluster = true

theorem half_le_chainRisk (item : ChainReputationData) :
    (Number.finite (1 / 2)).le (clamp (toNumber item.sybilRisk
      (if truthy item.sybilCluster then roundRat (7 / 10) else .finite 0)) (.finite 0) (.finite 1)) = true ↔ Risky item := by
  have cluster : (Number.finite (1 / 2)).le (clamp (roundRat (7 / 10)) (.finite 0) (.finite 1)) = true := by decide +kernel
  have alone : ¬ (Number.finite (1 / 2)).le (clamp (.finite 0) (.finite 0) (.finite 1)) = true := by decide +kernel
  rw [toNumber_eq, Risky]
  cases reading item.sybilRisk with
  | some risk => exact half_le_clamp risk
  | none =>
    cases truthy item.sybilCluster with
    | true => exact iff_of_true cluster rfl
    | false => exact iff_of_false alone Bool.false_ne_true

/-- The parts of a chain's score that are a penalty of this kind. -/
theorem mem_breakdown_sybil (item : ChainReputationData) (part : ReputationBreakdownItem) :
    part ∈ (scoreSingleChain runtime item).breakdown → part.signal = "sybil_resistance" → Risky item ∧ part.points = .finite (-15) := by
  intro listed named
  rw [scoreSingleChain] at listed
  dsimp only at listed
  rw [List.mem_append, List.mem_append] at listed
  rcases listed with plain | failure | sybil
  · exfalso
    simp only [List.mem_cons, List.not_mem_nil, or_false] at plain
    rcases plain with rfl | rfl | rfl | rfl | rfl | rfl <;> simp at named
  · exfalso
    split at failure
    · rw [List.mem_singleton.mp failure] at named
      simp at named
    · cases failure
  · by_cases risky : Risky item
    · rw [if_pos ((half_le_chainRisk item).mpr risky)] at sybil
      refine ⟨risky, ?_⟩
      rw [List.mem_singleton.mp sybil]
    · rw [if_neg (mt (half_le_chainRisk item).mp risky)] at sybil
      cases sybil

theorem exists_breakdown_sybil (runtime : Runtime) {item : ChainReputationData} (risky : Risky item) :
    ∃ part ∈ (scoreSingleChain runtime item).breakdown, part.signal = "sybil_resistance" := by
  have high := (half_le_chainRisk item).mpr risky
  rw [scoreSingleChain]
  dsimp only
  rw [if_pos high]
  exact ⟨_, List.mem_append_right _ (List.mem_append_right _ List.mem_cons_self), rfl⟩

/-! ### The signals -/

/-- Every part stands under its own signal. -/
def Keyed (signals : Signals) : Prop := ∀ entry ∈ signals.entries, entry.2.signal = entry.1

theorem Keyed.set {signals : Signals} (keyed : Keyed signals) (part : ReputationBreakdownItem) :
    Keyed (signals.set part.signal part) :=
  OrderedMap.forall_mem_set.mpr ⟨rfl, fun entry member _ => keyed entry member⟩

theorem keyed_empty : Keyed OrderedMap.empty := fun _ member => by cases member

/-- What is added to a signal stays under it. -/
def Adds (add : Signals → ReputationBreakdownItem → Signals) : Prop :=
  ∀ signals part, Keyed signals → ∃ merged : ReputationBreakdownItem,
    merged.signal = part.signal ∧ add signals part = signals.set part.signal merged

theorem adds_positive : Adds addPositive := by
  intro signals part keyed
  rw [addPositive]
  cases known : signals.get part.signal with
  | none => exact ⟨part, rfl, rfl⟩
  | some existing =>
    refine ⟨_, ?_, rfl⟩
    exact keyed _ (OrderedMap.mem_entries.mpr known)

theorem adds_negative : Adds addNegative := by
  intro signals part keyed
  rw [addNegative]
  cases known : signals.get part.signal with
  | none => exact ⟨part, rfl, rfl⟩
  | some existing =>
    refine ⟨_, ?_, rfl⟩
    exact keyed _ (OrderedMap.mem_entries.mpr known)

theorem foldl_adds {add : Signals → ReputationBreakdownItem → Signals} (adds : Adds add)
    (parts : List ReputationBreakdownItem) {signals : Signals} (keyed : Keyed signals) :
    Keyed (parts.foldl add signals) ∧
      ∀ signal, signal ∈ (parts.foldl add signals).keys ↔ signal ∈ signals.keys ∨ ∃ part ∈ parts, part.signal = signal := by
  induction parts generalizing signals with
  | nil => exact ⟨keyed, fun signal => by simp⟩
  | cons part parts ih =>
    obtain ⟨merged, named, added⟩ := adds signals part keyed
    have keyed' : Keyed (add signals part) := by
      rw [added, ← named]
      exact keyed.set merged
    obtain ⟨kept, members⟩ := ih keyed'
    refine ⟨kept, fun signal => ?_⟩
    rw [List.foldl_cons, members, added, OrderedMap.keys_set, Ordered.mem_add]
    simp only [List.mem_cons, exists_eq_or_imp, or_assoc, eq_comm (a := signal)]

theorem exists_signal_iff {signals : Signals} (keyed : Keyed signals) (signal : String)
    (before : ReputationBreakdownItem → ReputationBreakdownItem → Bool) :
    (∃ part ∈ (signals.entries.map Prod.snd).mergeSort before, part.signal = signal) ↔ signal ∈ signals.keys := by
  simp only [List.mem_mergeSort, OrderedMap.keys, List.mem_map]
  constructor
  · rintro ⟨part, ⟨entry, member, rfl⟩, rfl⟩
    exact ⟨entry, member, (keyed entry member).symm⟩
  · rintro ⟨entry, member, rfl⟩
    exact ⟨entry.2, ⟨entry, member, rfl⟩, keyed entry member⟩

/-- `if (condition) signals.set(signal, part)` -/
abbrev setIf (condition : Prop) [Decidable condition] (signals : Signals) (signal : String) (part : ReputationBreakdownItem) :
    Signals := if condition then signals.set signal part else signals

theorem Keyed.setIf {signals : Signals} (keyed : Keyed signals) (condition : Prop) [Decidable condition] {signal : String}
    {part : ReputationBreakdownItem} (named : part.signal = signal) :
    Keyed (setIf condition signals signal part) ∧
      ∀ other, other ∈ (Scoring.setIf condition signals signal part).keys ↔
        other ∈ signals.keys ∨ condition ∧ other = signal := by
  subst named
  rw [Scoring.setIf]
  split
  · rename_i holds
    refine ⟨keyed.set part, fun signal => ?_⟩
    rw [OrderedMap.keys_set, Ordered.mem_add]
    simp only [holds, true_and]
  · rename_i fails
    exact ⟨keyed, fun signal => by simp only [fails, false_and, or_false]⟩

theorem exists_signal_setIf {signals : Signals} (keyed : Keyed signals) {chains links suspicious : Prop} [Decidable chains]
    [Decidable links] [Decidable suspicious] {first second third : ReputationBreakdownItem} {k₁ k₂ k₃ : String}
    (named₁ : first.signal = k₁) (named₂ : second.signal = k₂) (named₃ : third.signal = k₃) (signal : String)
    (before : ReputationBreakdownItem → ReputationBreakdownItem → Bool) :
    (∃ part ∈ ((setIf suspicious (setIf links (setIf chains signals k₁ first) k₂ second) k₃ third).entries.map
        Prod.snd).mergeSort before, part.signal = signal) ↔
      ((signal ∈ signals.keys ∨ chains ∧ signal = k₁) ∨ links ∧ signal = k₂) ∨ suspicious ∧ signal = k₃ := by
  have one := keyed.setIf chains named₁
  have two := one.1.setIf links named₂
  have three := two.1.setIf suspicious named₃
  rw [exists_signal_iff three.1, three.2, two.2, one.2]

/-- The parts of all chains, those with points before the penalties. -/
theorem signals_iff (items : List ChainReputationData) (parts : List ReputationBreakdownItem)
    (members : ∀ part, part ∈ parts ↔ ∃ item ∈ items, part ∈ (scoreSingleChain runtime item).breakdown) :
    (∃ part ∈ parts.filter fun part => (Number.finite 0).le part.points, part.signal = "sybil_resistance") ∨
      (∃ part ∈ parts.filter fun part => part.points.lt (.finite 0), part.signal = "sybil_resistance") ↔
    ∃ item ∈ items, Risky item := by
  have penalty (part : ReputationBreakdownItem) (listed : part ∈ parts) (named : part.signal = "sybil_resistance") :
      (∃ item ∈ items, Risky item) ∧ part.points = .finite (-15) := by
    obtain ⟨item, member, inside⟩ := (members part).mp listed
    obtain ⟨risky, points⟩ := mem_breakdown_sybil item part inside named
    exact ⟨⟨item, member, risky⟩, points⟩
  constructor
  · rintro (⟨part, listed, named⟩ | ⟨part, listed, named⟩)
    · exact (penalty part (List.mem_of_mem_filter listed) named).1
    · exact (penalty part (List.mem_of_mem_filter listed) named).1
  · rintro ⟨item, member, risky⟩
    obtain ⟨part, inside, named⟩ := exists_breakdown_sybil runtime risky
    have listed := (members part).mpr ⟨item, member, inside⟩
    refine .inr ⟨part, List.mem_filter.mpr ⟨listed, ?_⟩, named⟩
    rw [(penalty part listed named).2]
    decide

/-- The breakdown has the penalty of a chain or that of the assessment. -/
theorem penalized_iff (c : String) (items : List ChainReputationData) (links : List String) :
    Penalized (buildScoreResult runtime c items links) ↔
      (∃ item ∈ items, Risky item) ∨ (assessSybilRisk runtime (canonicalAddress c) items).isSuspicious = true := by
  rw [Penalized, buildScoreResult]
  dsimp only
  set parts := ((items.map (scoreSingleChain runtime)).mergeSort fun a b =>
    (runtime.localeCompare a.chainId b.chainId).isLE).flatMap ChainScore.breakdown with spelled
  have members (part : ReputationBreakdownItem) :
      part ∈ parts ↔ ∃ item ∈ items, part ∈ (scoreSingleChain runtime item).breakdown := by
    rw [spelled, List.mem_flatMap]
    simp only [List.mem_mergeSort, List.mem_map, exists_exists_and_eq_and]
  have positive := foldl_adds adds_positive (parts.filter fun part => (Number.finite 0).le part.points) keyed_empty
  have negative := foldl_adds adds_negative (parts.filter fun part => part.points.lt (.finite 0)) positive.1
  refine (exists_signal_setIf negative.1 ?_ ?_ ?_ _ _).trans ?_
  · rfl
  · rfl
  · rfl
  · rw [negative.2, positive.2, ← signals_iff items parts members]
    simp [OrderedMap.keys, OrderedMap.empty]

/-! ### The verdicts -/

theorem byChain_idem : byChain runtime address (itemsOf address chainData) = byChain runtime address chainData := by
  rw [byChain, byChain, itemsOf, itemsOf, List.filter_filter]
  simp only [Bool.and_self]

/-- The badge follows the assessment. -/
theorem resistant_iff (address : String) (chainData : List ChainReputationData) :
    Resistant (earnBadges runtime address chainData) ↔ ¬ Suspected runtime (byChain runtime address chainData) := by
  have verdict := @isSuspicious_iff runtime address (itemsOf address chainData)
  rw [byChain_idem] at verdict
  rw [← verdict, Resistant, earnBadges]
  simp only [List.mem_mergeSort, List.mem_append, List.mem_ite_nil_right, List.mem_singleton]
  constructor
  · rintro ⟨found, (((((⟨-, rfl⟩ | ⟨-, rfl⟩) | ⟨-, rfl⟩) | ⟨-, rfl⟩) | ⟨-, rfl⟩) | ⟨trusted, rfl⟩), named⟩
    · simp [badge] at named
    · simp [badge] at named
    · simp [badge] at named
    · simp [badge] at named
    · simp [badge] at named
    · intro suspicious
      rw [itemsOf] at suspicious
      rw [suspicious] at trusted
      cases trusted
  · intro trusted
    rw [Bool.not_eq_true, itemsOf] at trusted
    refine ⟨_, .inr ⟨?_, rfl⟩, rfl⟩
    rw [trusted]
    rfl

theorem exists_risky_iff (items : List ChainReputationData) :
    (∃ item ∈ items, Risky item) ↔
      (∃ item ∈ items, ∃ risk ∈ reading item.sybilRisk, 1 / 2 ≤ risk) ∨ Clustered items := by
  constructor
  · rintro ⟨item, member, risky⟩
    rw [Risky] at risky
    cases stated : reading item.sybilRisk with
    | some risk =>
      rw [stated] at risky
      exact .inl ⟨item, member, risk, stated, risky⟩
    | none =>
      rw [stated] at risky
      exact .inr ⟨item, member, risky, stated⟩
  · rintro (⟨item, member, risk, stated, high⟩ | ⟨item, member, cluster, silent⟩)
    · refine ⟨item, member, ?_⟩
      rw [Risky, Option.mem_def.mp stated]
      exact high
    · refine ⟨item, member, ?_⟩
      rw [Risky, silent]
      exact cluster

theorem suspected_iff (collation : Std.TransCmp runtime.localeCompare) :
    (assessSybilRisk runtime (canonicalAddress address) (itemsOf address (sortItems runtime chainData))).isSuspicious = true ↔
      Suspected runtime (byChain runtime address chainData) := by
  rw [isSuspicious_iff, byChain_itemsOf collation]

theorem assessed_iff (collation : Std.TransCmp runtime.localeCompare) :
    (computeReputationScore runtime address chainData).sybil.isSuspicious = true ↔
      Suspected runtime (byChain runtime address chainData) := by
  rw [← suspected_iff collation, computeReputationScore_eq, buildScoreResult]
  dsimp only
  rw [canonicalAddress_idem]

theorem penalized_computeReputationScore (collation : Std.TransCmp runtime.localeCompare) :
    Penalized (computeReputationScore runtime address chainData) ↔
      Clustered (itemsOf address chainData) ∨ Suspected runtime (byChain runtime address chainData) := by
  have same (item : ChainReputationData) :
      item ∈ itemsOf address (sortItems runtime chainData) ↔ item ∈ itemsOf address chainData :=
    ((List.mergeSort_perm _ _).filter _).mem_iff
  have risky : (∃ item ∈ itemsOf address (sortItems runtime chainData), Risky item) ↔
      (∃ item ∈ itemsOf address chainData, Risky item) := by
    simp only [same]
  have stated (high : ∃ item ∈ itemsOf address chainData, ∃ risk ∈ reading item.sybilRisk, 1 / 2 ≤ risk) :
      Suspected runtime (byChain runtime address chainData) := by
    obtain ⟨item, member, risk, stated, high⟩ := high
    exact .inl ⟨item, List.mem_mergeSort.mpr member, risk, stated, high⟩
  rw [computeReputationScore_eq, penalized_iff, canonicalAddress_idem, suspected_iff collation, risky, exists_risky_iff]
  constructor
  · rintro ((high | clustered) | suspicious)
    · exact .inr (stated high)
    · exact .inl clustered
    · exact .inr suspicious
  · exact Or.imp_left .inr

/-- Penalty, assessment and badge of an address agree just where a member of a cluster that states
no risk is suspected for another reason. -/
theorem verdicts_agree_iff (runtime : Runtime) (collation : Std.TransCmp runtime.localeCompare) (address : String)
    (chainData : List ChainReputationData) :
    VerdictsAgree runtime address chainData ↔
      (Clustered (itemsOf address chainData) → Suspected runtime (byChain runtime address chainData)) := by
  rw [VerdictsAgree, penalized_computeReputationScore collation, resistant_iff, ← Bool.not_eq_true, assessed_iff collation,
    or_iff_right_iff_imp]
  exact and_iff_left Iff.rfl

/-- An active account in a cluster. -/
def clusterMember (risk : Option Json) : Json :=
  .object [("chainId", some (.text "stellar")), ("address", some (.text "GA")), ("transactionCount", some (.number 100)),
    ("uniqueContractsInteracted", some (.number 5)), ("sybilCluster", some (.text "ring")), ("sybilRisk", risk)]

theorem itemsOf_clusterMember (risk : Option Json) :
    itemsOf "GA" (parseChainData oneRuntime [clusterMember risk]) = parseChainData oneRuntime [clusterMember risk] :=
  List.filter_cons_of_pos (decide_eq_true rfl)

theorem verdicts_agree_stated :
    VerdictsAgree oneRuntime "GA" (parseChainData oneRuntime [clusterMember (some (.number (9 / 10)))]) := by
  refine (verdicts_agree_iff oneRuntime collation_one _ _).mpr fun _ => ?_
  refine .inl ⟨readChainData oneRuntime (some (clusterMember (some (.number (9 / 10))))), ?_, 9 / 10, rfl, by norm_num⟩
  rw [byChain, itemsOf_clusterMember, List.mem_mergeSort]
  exact List.mem_cons_self

/-- The penalty of a cluster and the badge of those that resist. -/
theorem cluster_verdicts_differ : ¬ ∀ (address : String) (chainData : List ChainReputationData),
    VerdictsAgree oneRuntime address chainData := by
  intro claimed
  have agree := (claimed "GA" (parseChainData oneRuntime [clusterMember none])).1
  rw [penalized_computeReputationScore collation_one, assessed_iff collation_one, byChain, itemsOf_clusterMember, parseChainData,
    List.map_singleton, List.mergeSort_singleton] at agree
  rcases agree.mp (.inl ⟨_, List.mem_cons_self, rfl, rfl⟩) with ⟨item, member, risk, stated, -⟩ | ⟨-, two⟩
  · rw [List.mem_singleton.mp member] at stated
    cases stated
  · revert two
    decide +kernel

end Octraban.Scoring
