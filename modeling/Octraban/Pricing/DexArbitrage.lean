import Octraban.Core.JavaScript
import Octraban.Core.OrderedMap

/-! dex/arbitrage.ts and the swap of dex/pool-math.ts, over the rationals: two pools of a pair whose
rates differ by more than the fees. -/
namespace Octraban.DexArbitrage
open JavaScript (utf16)

structure ArbPool where
  poolAddress : String
  pairKey : String
  tokenA : String
  tokenB : String
  reserveAHuman : ℚ
  reserveBHuman : ℚ
  feeBps : ℚ
  quotePriceUsd : Option ℚ

structure ArbitrageOpportunity where
  pairKey : String
  tokenA : String
  tokenB : String
  buyPool : String
  sellPool : String
  buyRate : ℚ
  sellRate : ℚ
  spreadPct : ℚ
  estProfitUsd : ℚ
  optimalTradeUsd : ℚ

def pairKeyOf (t0 t1 : String) : String := if utf16 t1 < utf16 t0 then t1 ++ "|" ++ t0 else t0 ++ "|" ++ t1

/-- Quote per base, by the order of the tokens that the pool has itself. -/
def rate (p : ArbPool) : ℚ := p.reserveBHuman / p.reserveAHuman

/-- A loop that keeps the first element that no later one is better than. -/
def pick (better : ArbPool → ArbPool → Prop) [DecidableRel better] (first : ArbPool) (rest : List ArbPool) : ArbPool :=
  rest.foldl (fun best r => if better r best then r else best) first

def cheapest (first : ArbPool) (rest : List ArbPool) : ArbPool := pick (fun r best => rate r < rate best) first rest

def dearest (first : ArbPool) (rest : List ArbPool) : ArbPool := pick (fun r best => rate best < rate r) first rest

/-- As a fraction. -/
def grossSpread (cheap dear : ArbPool) : ℚ := (rate dear - rate cheap) / rate cheap

def netEdge (cheap dear : ArbPool) : ℚ := grossSpread cheap dear - (cheap.feeBps + dear.feeBps) / 10000

def tradeQuote (cheap dear : ArbPool) : ℚ :=
  min cheap.reserveBHuman dear.reserveBHuman * min (3 / 10) (netEdge cheap dear)

def quotePrice (cheap dear : ArbPool) : Option ℚ := dear.quotePriceUsd.or cheap.quotePriceUsd

def opportunityOf (pairKey : String) (cheap dear : ArbPool) : ArbitrageOpportunity :=
  let optimalTradeUsd := (quotePrice cheap dear).elim (tradeQuote cheap dear) (tradeQuote cheap dear * ·)
  { pairKey
    tokenA := cheap.tokenA
    tokenB := cheap.tokenB
    buyPool := cheap.poolAddress
    sellPool := dear.poolAddress
    buyRate := rate cheap
    sellRate := rate dear
    spreadPct := grossSpread cheap dear * 100
    estProfitUsd := optimalTradeUsd * netEdge cheap dear
    optimalTradeUsd }

/-- The body of the loop over the groups, none where it continues. -/
def compare (minSpreadPct : ℚ) (pairKey : String) : List ArbPool → Option ArbitrageOpportunity
  | first :: second :: rest =>
    let cheap := cheapest first (second :: rest)
    let dear := dearest first (second :: rest)
    if cheap.poolAddress = dear.poolAddress then none
    else if rate cheap ≤ 0 then none
    else if grossSpread cheap dear * 100 < minSpreadPct ∨ netEdge cheap dear ≤ 0 then none
    else some (opportunityOf pairKey cheap dear)
  | _ => none

def usable (pools : List ArbPool) : List ArbPool :=
  pools.filter fun p => ¬ (p.reserveAHuman ≤ 0 ∨ p.reserveBHuman ≤ 0)

def findArbitrageOpportunities (pools : List ArbPool) (minSpread : Option ℚ) : List ArbitrageOpportunity :=
  let minSpreadPct := minSpread.getD (3 / 10)
  let groups := (usable pools).foldl (fun groups p => groups.update p.pairKey [] (· ++ [p]))
    (.empty : OrderedMap String (List ArbPool))
  (groups.entries.filterMap fun group => compare minSpreadPct group.1 group.2).mergeSort
    fun a b => b.estProfitUsd ≤ a.estProfitUsd

structure SwapSimulation where
  amountIn : ℚ
  amountOut : ℚ
  midPrice : ℚ
  executionPrice : ℚ
  slippagePct : ℚ
  priceImpactPct : ℚ
  feePaid : ℚ

def simulateSwap (amountIn reserveIn reserveOut feeBps : ℚ) : SwapSimulation :=
  let midPrice := if reserveIn > 0 then reserveOut / reserveIn else 0
  if amountIn ≤ 0 ∨ reserveIn ≤ 0 ∨ reserveOut ≤ 0 then ⟨amountIn, 0, midPrice, 0, 0, 0, 0⟩
  else
    let fee := feeBps / 10000
    let amountInAfterFee := amountIn * (1 - fee)
    let amountOut := amountInAfterFee * reserveOut / (reserveIn + amountInAfterFee)
    let executionPrice := amountOut / amountIn
    let newMid := (reserveOut - amountOut) / (reserveIn + amountInAfterFee)
    { amountIn, amountOut, midPrice, executionPrice
      slippagePct := if midPrice > 0 then max 0 ((1 - executionPrice / midPrice) * 100) else 0
      priceImpactPct := if midPrice > 0 then max 0 ((1 - newMid / midPrice) * 100) else 0
      feePaid := amountIn * fee }

/-! ### The round trip -/

def reserveOf (p : ArbPool) (token : String) : ℚ := if p.tokenA = token then p.reserveAHuman else p.reserveBHuman

/-- The reserve of the token that a pool trades for another one. -/
def reserveAgainst (p : ArbPool) (token : String) : ℚ := if p.tokenA = token then p.reserveBHuman else p.reserveAHuman

/-- The quote tokens that come back for some spent on the base token of one pool, sold in the other. -/
def roundTrip (buy sell : ArbPool) (spent : ℚ) : ℚ :=
  let base := (simulateSwap spent buy.reserveBHuman buy.reserveAHuman buy.feeBps).amountOut
  (simulateSwap base (reserveOf sell buy.tokenA) (reserveAgainst sell buy.tokenA) sell.feeBps).amountOut

/-- The reported trade size in quote tokens. -/
def spending (o : ArbitrageOpportunity) (price : Option ℚ) : ℚ := price.elim o.optimalTradeUsd (o.optimalTradeUsd / ·)

/-- More quote tokens come back than the reported size. -/
def Profitable (pools : List ArbPool) (o : ArbitrageOpportunity) : Prop :=
  ∀ buy ∈ pools, buy.poolAddress = o.buyPool → ∀ sell ∈ pools, sell.poolAddress = o.sellPool →
    spending o (quotePrice buy sell) < roundTrip buy sell (spending o (quotePrice buy sell))

/-- The first of those with the least value of `f`. -/
def Leads {L : Type} [LinearOrder L] (f : ArbPool → L) (group : List ArbPool) (p : ArbPool) : Prop :=
  ∃ before after, group = before ++ p :: after ∧ (∀ q ∈ before, f p < f q) ∧ ∀ q ∈ after, f p ≤ f q

/-- The cheapest and the dearest pool of a pair, far enough apart. -/
structure Compared (pools : List ArbPool) (minSpreadPct : ℚ) (buy sell : ArbPool) : Prop where
  least : Leads rate ((usable pools).filter fun p => p.pairKey = buy.pairKey) buy
  most : Leads (OrderDual.toDual ∘ rate) ((usable pools).filter fun p => p.pairKey = buy.pairKey) sell
  apart : buy.poolAddress ≠ sell.poolAddress
  spread : minSpreadPct ≤ grossSpread buy sell * 100
  edge : 0 < netEdge buy sell

/-- The trade is small enough for the two reserves that it meets, and its size can be told. -/
def Worthwhile (buy sell : ArbPool) : Prop :=
  let keptBuying := 1 - buy.feeBps / 10000
  let keptSelling := 1 - sell.feeBps / 10000
  quotePrice buy sell ≠ some 0 ∧
    tradeQuote buy sell * keptBuying * (reserveOf sell buy.tokenA + keptSelling * buy.reserveAHuman) <
      keptBuying * keptSelling * buy.reserveAHuman * reserveAgainst sell buy.tokenA -
        buy.reserveBHuman * reserveOf sell buy.tokenA

variable {pools : List ArbPool} {minSpread : Option ℚ} {buy sell first p q : ArbPool} {rest group : List ArbPool}

theorem amountOut_eq {amountIn reserveIn reserveOut feeBps : ℚ} (spent : 0 < amountIn) (filled : 0 < reserveIn)
    (other : 0 < reserveOut) : (simulateSwap amountIn reserveIn reserveOut feeBps).amountOut =
      amountIn * (1 - feeBps / 10000) * reserveOut / (reserveIn + amountIn * (1 - feeBps / 10000)) := by
  rw [simulateSwap, if_neg]
  rintro (none | none | none) <;> linarith

/-- Both swaps of a round trip in one formula. -/
theorem roundTrip_iff {spent a b i o k l : ℚ} (positive : 0 < spent) (base : 0 < a) (quote : 0 < b) (sold : 0 < i)
    (bought : 0 < o) (buying : 0 < k) (selling : 0 < l) :
    spent < spent * k * a / (b + spent * k) * l * o / (i + spent * k * a / (b + spent * k) * l) ↔
      spent * k * (i + l * a) < k * l * a * o - b * i := by
  have filled : 0 < b + spent * k := by positivity
  have out : spent * k * a / (b + spent * k) * l * o / (i + spent * k * a / (b + spent * k) * l) =
      spent * (k * l * a * o) / (i * (b + spent * k) + spent * k * a * l) := by
    field_simp
  have total : 0 < i * (b + spent * k) + spent * k * a * l := by positivity
  rw [out, lt_div_iff₀ total, mul_lt_mul_iff_right₀ positive]
  constructor <;> intro less <;> linarith

theorem spending_of_priced (size : ℚ) (price : Option ℚ) (known : price ≠ some 0) (o : ArbitrageOpportunity)
    (reported : o.optimalTradeUsd = price.elim size (size * ·)) : spending o price = size := by
  rw [spending, reported]
  cases price with
  | none => rfl
  | some price => exact mul_div_cancel_right₀ size fun zero => known (congrArg some zero)

section
variable {L : Type} [LinearOrder L] {f : ArbPool → L} {better : ArbPool → ArbPool → Prop} [DecidableRel better]

theorem leads_pick (means : ∀ r best, better r best ↔ f r < f best) (first : ArbPool) (rest : List ArbPool) :
    Leads f (first :: rest) (pick better first rest) := by
  induction rest using List.reverseRecOn with
  | nil => exact ⟨[], [], rfl, (fun _ member => nomatch member), (fun _ member => nomatch member)⟩
  | append_singleton rest last ih =>
    obtain ⟨before, after, split, less, least⟩ := ih
    rw [pick, List.foldl_append, List.foldl_cons, List.foldl_nil, ← pick, ← List.cons_append]
    split
    · rename_i new
      have lower := (means _ _).mp new
      refine ⟨first :: rest, [], rfl, fun q member => ?_, (fun _ member => nomatch member)⟩
      rw [split] at member
      rcases List.mem_append.mp member with earlier | later
      · exact lower.trans (less q earlier)
      · rcases List.mem_cons.mp later with rfl | later
        · exact lower
        · exact lower.trans_le (least q later)
    · rename_i old
      refine ⟨before, after ++ [last], by rw [split, List.append_assoc, List.cons_append], less, fun q member => ?_⟩
      rcases List.mem_append.mp member with earlier | final
      · exact least q earlier
      · rw [List.mem_singleton.mp final]
        exact not_lt.mp fun lower => old ((means _ _).mpr lower)

theorem Leads.mem (leads : Leads f group p) : p ∈ group := by
  obtain ⟨before, after, rfl, -⟩ := leads
  exact List.mem_append_right _ List.mem_cons_self

/-- Each of two that lead comes no later than the other. -/
theorem Leads.unique (one : Leads f group p) (other : Leads f group q) : p = q := by
  obtain ⟨before, after, split, less, least⟩ := one
  obtain ⟨before', after', split', less', least'⟩ := other
  rw [split] at split'
  rcases List.append_eq_append_iff.mp split' with ⟨middle, early, late⟩ | ⟨middle, early, late⟩
  · cases middle with
    | nil => exact (List.cons.inj late).1
    | cons head middle =>
      obtain ⟨rfl, rest⟩ := List.cons.inj late
      have lower := less' p (early ▸ List.mem_append_right _ List.mem_cons_self)
      have higher := least q (rest ▸ List.mem_append_right _ List.mem_cons_self)
      exact absurd lower (not_lt.mpr higher)
  · cases middle with
    | nil => exact (List.cons.inj late).1.symm
    | cons head middle =>
      obtain ⟨rfl, rest⟩ := List.cons.inj late
      have lower := less q (early ▸ List.mem_append_right _ List.mem_cons_self)
      have higher := least' p (rest ▸ List.mem_append_right _ List.mem_cons_self)
      exact absurd lower (not_lt.mpr higher)

end

theorem leads_cheapest (first : ArbPool) (rest : List ArbPool) : Leads rate (first :: rest) (cheapest first rest) :=
  leads_pick (fun _ _ => Iff.rfl) first rest

theorem leads_dearest (first : ArbPool) (rest : List ArbPool) :
    Leads (OrderDual.toDual ∘ rate) (first :: rest) (dearest first rest) :=
  leads_pick (fun _ _ => Iff.rfl) first rest

theorem usable_iff : p ∈ usable pools ↔ p ∈ pools ∧ 0 < p.reserveAHuman ∧ 0 < p.reserveBHuman := by
  simp only [usable, List.mem_filter, decide_eq_true_eq, not_or, not_le]

theorem rate_pos (member : p ∈ usable pools) : 0 < rate p := by
  obtain ⟨-, a, b⟩ := usable_iff.mp member
  exact div_pos b a

/-- What the scan reports, one opportunity for each pair of pools that are compared. -/
theorem mem_findArbitrageOpportunities {o : ArbitrageOpportunity} : o ∈ findArbitrageOpportunities pools minSpread ↔
    ∃ buy sell, Compared pools (minSpread.getD (3 / 10)) buy sell ∧ o = opportunityOf buy.pairKey buy sell := by
  rw [findArbitrageOpportunities, List.mem_mergeSort, List.mem_filterMap]
  constructor
  · rintro ⟨⟨pairKey, group⟩, member, compared⟩
    obtain ⟨-, grouped⟩ := OrderedMap.mem_groups.mp member
    match group, compared with
    | first :: second :: rest, compared =>
      rw [compare] at compared
      dsimp only at compared
      have least := leads_cheapest first (second :: rest)
      have most := leads_dearest first (second :: rest)
      split_ifs at compared with same poor narrow
      rw [not_or, not_lt, not_le] at narrow
      have own : (cheapest first (second :: rest)).pairKey = pairKey := by
        have inside := least.mem
        rw [grouped] at inside
        exact of_decide_eq_true (List.mem_filter.mp inside).2
      rw [grouped, ← own] at least most
      refine ⟨_, _, ⟨least, most, same, narrow.1, narrow.2⟩, ?_⟩
      rw [own]
      exact (Option.some.inj compared).symm
  · rintro ⟨buy, sell, ⟨least, most, apart, spread, edge⟩, rfl⟩
    have member := (List.mem_filter.mp least.mem).1
    set group := (usable pools).filter fun p => p.pairKey = buy.pairKey with grouped
    refine ⟨(buy.pairKey, group), OrderedMap.mem_groups.mpr ⟨List.mem_map_of_mem member, grouped⟩, ?_⟩
    have positive := rate_pos member
    clear_value group
    match group, least, most with
    | [], least, _ => exact absurd least.mem List.not_mem_nil
    | [only], least, most =>
      have one := List.mem_singleton.mp least.mem
      have other := List.mem_singleton.mp most.mem
      exact absurd (congrArg ArbPool.poolAddress (one.trans other.symm)) apart
    | first :: second :: rest, least, most =>
      have cheap := (leads_cheapest first (second :: rest)).unique least
      have dear := (leads_dearest first (second :: rest)).unique most
      rw [compare, cheap, dear]
      dsimp only
      rw [if_neg apart, if_neg (not_le.mpr positive), if_neg]
      rw [not_or, not_lt, not_le]
      exact ⟨spread, edge⟩

/-- The reserves that a round trip meets are positive. -/
theorem Compared.reserves {minSpreadPct : ℚ} (compared : Compared pools minSpreadPct buy sell) :
    buy ∈ pools ∧ sell ∈ pools ∧ (0 < buy.reserveAHuman ∧ 0 < buy.reserveBHuman) ∧ 0 < tradeQuote buy sell ∧
      0 < reserveOf sell buy.tokenA ∧ 0 < reserveAgainst sell buy.tokenA := by
  obtain ⟨inside, buying⟩ := usable_iff.mp (List.mem_filter.mp compared.least.mem).1
  obtain ⟨among, selling⟩ := usable_iff.mp (List.mem_filter.mp compared.most.mem).1
  refine ⟨inside, among, buying, ?_, ?_, ?_⟩
  · exact mul_pos (lt_min buying.2 selling.2) (lt_min (by norm_num) compared.edge)
  · rw [reserveOf]
    split
    · exact selling.1
    · exact selling.2
  · rw [reserveAgainst]
    split
    · exact selling.2
    · exact selling.1

theorem profitable_iff (distinct : (pools.map ArbPool.poolAddress).Nodup) (fees : ∀ p ∈ pools, p.feeBps < 10000)
    {minSpreadPct : ℚ} (compared : Compared pools minSpreadPct buy sell) :
    Profitable pools (opportunityOf buy.pairKey buy sell) ↔ Worthwhile buy sell := by
  obtain ⟨inside, among, ⟨base, quote⟩, size, sold, bought⟩ := compared.reserves
  have told := List.inj_on_of_nodup_map distinct
  have only : Profitable pools (opportunityOf buy.pairKey buy sell) ↔
      spending (opportunityOf buy.pairKey buy sell) (quotePrice buy sell) <
        roundTrip buy sell (spending (opportunityOf buy.pairKey buy sell) (quotePrice buy sell)) := by
    constructor
    · exact fun profitable => profitable buy inside rfl sell among rfl
    · intro gains p member sameBuy q member' sameSell
      rw [told member inside sameBuy, told member' among sameSell]
      exact gains
  rw [only, Worthwhile]
  by_cases free : quotePrice buy sell = some 0
  · rw [free]
    refine iff_of_false (fun gains => ?_) fun worth => worth.1 rfl
    have nothing : spending (opportunityOf buy.pairKey buy sell) (some 0) = 0 := div_zero _
    rw [nothing, roundTrip, simulateSwap, if_pos (.inl le_rfl), simulateSwap, if_pos (.inl le_rfl)] at gains
    exact absurd gains (lt_irrefl _)
  · have buying : 0 < 1 - buy.feeBps / 10000 := by linarith [fees buy inside]
    have selling : 0 < 1 - sell.feeBps / 10000 := by linarith [fees sell among]
    have obtained : 0 < tradeQuote buy sell * (1 - buy.feeBps / 10000) * buy.reserveAHuman /
        (buy.reserveBHuman + tradeQuote buy sell * (1 - buy.feeBps / 10000)) := by positivity
    rw [spending_of_priced (tradeQuote buy sell) _ free _ rfl, roundTrip, amountOut_eq size quote base,
      amountOut_eq obtained sold bought, roundTrip_iff size base quote sold bought buying selling]
    exact (and_iff_right free).symm

/-- Every reported opportunity is profitable at its size if and only if each pair of pools that is
compared leaves room for that size. -/
theorem opportunities_profitable_iff (pools : List ArbPool) (minSpread : Option ℚ)
    (distinct : (pools.map ArbPool.poolAddress).Nodup) (fees : ∀ p ∈ pools, p.feeBps < 10000) :
    (∀ o ∈ findArbitrageOpportunities pools minSpread, Profitable pools o) ↔
      ∀ buy sell, Compared pools (minSpread.getD (3 / 10)) buy sell → Worthwhile buy sell := by
  constructor
  · intro profitable buy sell compared
    exact (profitable_iff distinct fees compared).mp
      (profitable _ (mem_findArbitrageOpportunities.mpr ⟨buy, sell, compared, rfl⟩))
  · intro worthwhile o member
    obtain ⟨buy, sell, compared, rfl⟩ := mem_findArbitrageOpportunities.mp member
    exact (profitable_iff distinct fees compared).mpr (worthwhile buy sell compared)

/-! ### Two pools of AAA and USDC -/

def poolOf (poolAddress : String) (reserveA reserveB : ℚ) : ArbPool where
  poolAddress := poolAddress
  pairKey := pairKeyOf "AAA" "USDC"
  tokenA := "AAA"
  tokenB := "USDC"
  reserveAHuman := reserveA
  reserveBHuman := reserveB
  feeBps := 30
  quotePriceUsd := some 1

def cheapPool : ArbPool := poolOf "cheap" 1000 1000

theorem compared_of_two {dear : ArbPool} (same : dear.pairKey = cheapPool.pairKey) (filled : 0 < dear.reserveAHuman)
    (other : 0 < dear.reserveBHuman) (higher : rate cheapPool < rate dear) (apart : "cheap" ≠ dear.poolAddress)
    (spread : 3 / 10 ≤ grossSpread cheapPool dear * 100) (edge : 0 < netEdge cheapPool dear) :
    Compared [cheapPool, dear] (3 / 10) cheapPool dear := by
  have both : ((usable [cheapPool, dear]).filter fun p => p.pairKey = cheapPool.pairKey) = [cheapPool, dear] := by
    have first : 0 < cheapPool.reserveAHuman ∧ 0 < cheapPool.reserveBHuman := by norm_num [cheapPool, poolOf]
    have all : usable [cheapPool, dear] = [cheapPool, dear] := by
      refine List.filter_eq_self.mpr fun p member => decide_eq_true ?_
      rw [not_or, not_le, not_le]
      rcases List.mem_pair.mp member with rfl | rfl
      · exact first
      · exact ⟨filled, other⟩
    rw [all]
    simp [same]
  refine ⟨?_, ?_, apart, spread, edge⟩
  · rw [both]
    refine ⟨[], [dear], rfl, (fun _ member => nomatch member), fun q member => ?_⟩
    rw [List.mem_singleton.mp member]
    exact higher.le
  · rw [both]
    refine ⟨[cheapPool], [], rfl, fun q member => ?_, (fun _ member => nomatch member)⟩
    rw [List.mem_singleton.mp member]
    exact higher

theorem fees_of_two {dear : ArbPool} (fee : dear.feeBps < 10000) : ∀ p ∈ [cheapPool, dear], p.feeBps < 10000 := by
  intro p member
  rcases List.mem_pair.mp member with rfl | rfl
  · norm_num [cheapPool, poolOf]
  · exact fee

/-- Ten times the rate of the cheap pool. -/
def farPool : ArbPool := poolOf "far" 1000 10000

theorem opportunities_profitable_far : ([cheapPool, farPool].map ArbPool.poolAddress).Nodup ∧
    ∀ o ∈ findArbitrageOpportunities [cheapPool, farPool] none, Profitable [cheapPool, farPool] o := by
  have distinct : ([cheapPool, farPool].map ArbPool.poolAddress).Nodup := by decide
  refine ⟨distinct, (opportunities_profitable_iff _ none distinct (fees_of_two (by norm_num [farPool, poolOf]))).mpr ?_⟩
  intro buy sell compared
  have keys : ((usable [cheapPool, farPool]).filter fun p => p.pairKey = buy.pairKey) ⊆ [cheapPool, farPool] :=
    fun p member => List.mem_of_mem_filter (List.mem_of_mem_filter member)
  -- the only pair that is apart and has a spread
  rcases List.mem_pair.mp (keys compared.least.mem) with rfl | rfl <;>
    rcases List.mem_pair.mp (keys compared.most.mem) with rfl | rfl
  · exact absurd rfl compared.apart
  · constructor <;> norm_num [cheapPool, farPool, poolOf, rate, grossSpread, netEdge, tradeQuote, reserveOf,
      reserveAgainst, quotePrice]
  · have spread := compared.spread
    norm_num [cheapPool, farPool, poolOf, rate, grossSpread] at spread
  · exact absurd rfl compared.apart

/-- A spread of one tenth, as in the tests: the trade of 94 brings back less than 87. -/
def dearPool : ArbPool := poolOf "dear" 1000 1100

theorem small_spread_loses : ¬ ∀ (pools : List ArbPool) (minSpread : Option ℚ),
    (pools.map ArbPool.poolAddress).Nodup → (∀ p ∈ pools, p.feeBps < 10000) →
    ∀ o ∈ findArbitrageOpportunities pools minSpread, Profitable pools o := by
  intro claimed
  have compared : Compared [cheapPool, dearPool] (3 / 10) cheapPool dearPool := by
    refine compared_of_two ?_ ?_ ?_ ?_ (by decide) ?_ ?_ <;>
      norm_num [cheapPool, dearPool, poolOf, rate, grossSpread, netEdge]
  have distinct : ([cheapPool, dearPool].map ArbPool.poolAddress).Nodup := by decide
  have fees := fees_of_two (show dearPool.feeBps < 10000 by norm_num [dearPool, poolOf])
  have gains := claimed _ none distinct fees _ (mem_findArbitrageOpportunities.mpr ⟨_, _, compared, rfl⟩)
  have worth := ((profitable_iff distinct fees compared).mp gains).2
  norm_num [cheapPool, dearPool, poolOf, rate, grossSpread, netEdge, tradeQuote, reserveOf, reserveAgainst] at worth

end Octraban.DexArbitrage
