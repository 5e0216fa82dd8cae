import Mathlib.Data.Rat.Floor
import Mathlib.Tactic.Positivity

/-! dex-price-source.ts, over the rationals: every pool with the token prices it, and the
price is the median of these, weighted by volume. -/
namespace Octraban.Pricing

/-- A row of `dexPool`. -/
structure DexPool where
  dexName : String
  tokenA : String
  tokenB : String
  reserveA : Option ℚ
  reserveB : Option ℚ
  tokenADecimals : Option Int
  tokenBDecimals : Option Int
  priceAUsd : Option ℚ
  priceBUsd : Option ℚ
  volume24hUsd : Option ℚ
  tvlUsd : Option ℚ

def MIN_LIQUIDITY_THRESHOLD_USD : ℚ := 1000

structure TokenPrice where
  price : ℚ
  volume24hUsd : ℚ
  liquidityUsd : ℚ
  dexName : String
  priceXlm : ℚ

/-- The confidence is none where it is NaN. -/
structure DexPrice where
  priceUsd : ℚ
  priceXlm : ℚ
  source : String
  confidence : Option ℚ
  volume24hUsd : ℚ
  liquidityUsd : ℚ
  twap1h : ℚ
  twap24h : ℚ

/-- `BigInt(reserve?.toString() ?? '0')`, none where it throws: a text with a fraction, or
with an exponent. -/
def bigInt (reserve : Option ℚ) : Option Int :=
  match reserve with
  | none => some 0
  | some x => if x.den = 1 ∧ |x| < 10 ^ 21 then some x.num else none

/-- What the loop reads of a pool: the side of the token, and the other one. -/
structure Side where
  reserveToken : Int
  reserveOther : Int
  decimalsToken : Int
  decimalsOther : Int
  knownPrice : Option ℚ

/-- None where a reserve is no integer to `BigInt`. -/
def DexPool.side (pool : DexPool) (isTokenA : Bool) : Option Side :=
  match bigInt (if isTokenA then pool.reserveA else pool.reserveB),
      bigInt (if isTokenA then pool.reserveB else pool.reserveA) with
  | some reserveToken, some reserveOther => some {
      reserveToken := reserveToken
      reserveOther := reserveOther
      decimalsToken := if isTokenA then pool.tokenADecimals.getD 7 else pool.tokenBDecimals.getD 7
      decimalsOther := if isTokenA then pool.tokenBDecimals.getD 7 else pool.tokenADecimals.getD 7
      knownPrice := if isTokenA then pool.priceBUsd else pool.priceAUsd }
  | _, _ => none

def Side.amountToken (side : Side) : ℚ := side.reserveToken / 10 ^ side.decimalsToken

def Side.amountOther (side : Side) : ℚ := side.reserveOther / 10 ^ side.decimalsOther

def Side.priceUsd (side : Side) (isTokenA : Bool) : ℚ :=
  let kp := side.knownPrice.getD 0
  if kp > 0 ∧ side.amountToken > 0 then
    if isTokenA then kp * side.amountOther / side.amountToken else kp * side.amountToken / side.amountOther
  else 0

/-- The rest of the body of the loop, none where it continues. -/
def DexPool.priced (pool : DexPool) (isTokenA : Bool) (side : Side) : Option TokenPrice :=
  let volumeUsd := pool.volume24hUsd.getD 0
  if side.reserveToken ≤ 0 ∨ side.reserveOther ≤ 0 then none
  else if side.priceUsd isTokenA ≤ 0 then none
  else if ¬ volumeUsd ≥ MIN_LIQUIDITY_THRESHOLD_USD then none
  else some ⟨side.priceUsd isTokenA, volumeUsd, pool.tvlUsd.getD 0, pool.dexName, 0⟩

/-- What a pool adds to the prices; the outer none is a throw. -/
def contribution (tokenAddress : String) (pool : DexPool) : Option (Option TokenPrice) :=
  let isTokenA : Bool := pool.tokenA = tokenAddress
  (pool.side isTokenA).map (pool.priced isTokenA)

/-- The price at which the volumes summed up reach half of the total. -/
def reach (halfVolume : ℚ) : ℚ → List TokenPrice → Option ℚ
  | _, [] => none
  | cumulativeVolume, p :: rest =>
    if cumulativeVolume + p.volume24hUsd ≥ halfVolume then some p.price
    else reach halfVolume (cumulativeVolume + p.volume24hUsd) rest

def computeVolumeWeightedMedian (prices : List TokenPrice) : ℚ :=
  let sorted := prices.mergeSort fun a b => a.price ≤ b.price
  let totalVolume := (sorted.map TokenPrice.volume24hUsd).sum
  if totalVolume ≤ 0 then (prices.head?.map TokenPrice.price).getD 0
  else (reach (totalVolume / 2) 0 sorted).getD ((sorted.getLast?.map TokenPrice.price).getD 0)

/-- None for the names that every object has: what they stand for is no number. -/
def getConfidenceWeight (toLowerCase : String → String) (dexName : String) : Option ℚ :=
  let weights : List (String × ℚ) :=
    [("soroswap", 1), ("phoenix", 95 / 100), ("aquarius", 9 / 10), ("stellar_swap", 85 / 100)]
  let name := toLowerCase dexName
  if name ∈ ["constructor", "__proto__"] then none else some ((weights.lookup name).getD (1 / 2))

def computeTWAP (prices : List (ℚ × Int)) (now windowMs : Int) : ℚ :=
  let filtered := prices.filter fun p => p.2 ≥ now - windowMs
  let steps := filtered.zip filtered.tail
  let weightedSum := (steps.map fun (before, after) => before.1 * (after.2 - before.2 : Int)).sum
  let totalWeight := (steps.map fun (before, after) => after.2 - before.2).sum
  match filtered.getLast? with
  | none => 0
  | some last => if totalWeight ≤ 0 then last.1 else weightedSum / totalWeight

/-- What the call reads beside the pools: the cache, the price history, and the clock for
either average. -/
structure Reads where
  cached : Option DexPrice
  priceHistory : List (ℚ × Int)
  now1h : Int
  now24h : Int

def discover (toLowerCase : String → String) (reads : Reads) (tokenPrices : List TokenPrice) : Option DexPrice :=
  if tokenPrices.length = 0 then none
  else
    let volumeWeightedPrice := computeVolumeWeightedMedian tokenPrices
    let weights := tokenPrices.mapM fun p => getConfidenceWeight toLowerCase p.dexName
    let avgConfidence := weights.map fun weights : List ℚ => weights.sum / tokenPrices.length
    some {
      priceUsd := volumeWeightedPrice
      priceXlm := volumeWeightedPrice * (25 / 10)
      source := "dex"
      confidence := avgConfidence.map (min 1)
      volume24hUsd := (tokenPrices.map TokenPrice.volume24hUsd).sum
      liquidityUsd := (tokenPrices.map TokenPrice.liquidityUsd).sum
      twap1h := computeTWAP reads.priceHistory reads.now1h (60 * 60 * 1000)
      twap24h := computeTWAP reads.priceHistory reads.now24h (24 * 60 * 60 * 1000) }

/-- `pools` are the active ones with the token, as the query returns them. The outer none is
a throw. -/
def discoverDexPrice (toLowerCase : String → String) (reads : Reads) (tokenAddress : String) (pools : List DexPool) :
    Option (Option DexPrice) :=
  match reads.cached with
  | some cached => some (some cached)
  | none =>
    (pools.mapM (contribution tokenAddress)).map fun contributions =>
      discover toLowerCase reads (contributions.filterMap id)

/-- The same pool with its tokens exchanged. -/
def DexPool.exchange (pool : DexPool) : DexPool :=
  { pool with
    tokenA := pool.tokenB
    tokenB := pool.tokenA
    reserveA := pool.reserveB
    reserveB := pool.reserveA
    tokenADecimals := pool.tokenBDecimals
    tokenBDecimals := pool.tokenADecimals
    priceAUsd := pool.priceBUsd
    priceBUsd := pool.priceAUsd }

def DexPool.contains (pool : DexPool) (tokenAddress : String) : Prop :=
  pool.tokenA = tokenAddress ∨ pool.tokenB = tokenAddress

/-- What the price of the other token and the amounts make of the token's. -/
def Side.fairPrice (side : Side) : ℚ := side.knownPrice.getD 0 * side.amountOther / side.amountToken

/-- The pool passes the checks that do not look at a price. -/
def DexPool.counts (pool : DexPool) (side : Side) : Prop :=
  0 < side.reserveToken ∧ 0 < side.reserveOther ∧ MIN_LIQUIDITY_THRESHOLD_USD ≤ pool.volume24hUsd.getD 0

variable {toLowerCase : String → String} {reads : Reads} {tokenAddress : String} {pool : DexPool} {side : Side}
  {isTokenA : Bool} {entry : TokenPrice}

theorem side_exchange (pool : DexPool) (isTokenA : Bool) : pool.exchange.side isTokenA = pool.side !isTokenA := by
  cases isTokenA <;> rfl

theorem amounts_positive (counts : pool.counts side) : 0 < side.amountToken ∧ 0 < side.amountOther := by
  obtain ⟨token, other, _⟩ := counts
  have tokenReserve : (0 : ℚ) < side.reserveToken := by exact_mod_cast token
  have otherReserve : (0 : ℚ) < side.reserveOther := by exact_mod_cast other
  exact ⟨div_pos tokenReserve (zpow_pos (by norm_num) _), div_pos otherReserve (zpow_pos (by norm_num) _)⟩

theorem priced_iff : pool.priced isTokenA side = some entry ↔ pool.counts side ∧ 0 < side.priceUsd isTokenA ∧
    entry = ⟨side.priceUsd isTokenA, pool.volume24hUsd.getD 0, pool.tvlUsd.getD 0, pool.dexName, 0⟩ := by
  unfold DexPool.priced DexPool.counts
  simp only
  split
  · rename_i empty
    constructor
    · exact fun impossible => by cases impossible
    · rintro ⟨⟨token, other, _⟩, _⟩
      omega
  · rename_i stocked
    split
    · rename_i priceless
      constructor
      · exact fun impossible => by cases impossible
      · rintro ⟨_, price, _⟩
        exact absurd price (not_lt.mpr priceless)
    · rename_i price
      split
      · rename_i thin
        constructor
        · exact fun impossible => by cases impossible
        · rintro ⟨⟨_, _, volume⟩, _⟩
          exact absurd volume thin
      · rename_i volume
        rw [Option.some.injEq, eq_comm]
        rw [not_or, not_le, not_le] at stocked
        exact ⟨fun same => ⟨⟨stocked.1, stocked.2, not_not.mp volume⟩, not_le.mp price, same⟩, fun found => found.2.2⟩

/-- The price is as it should be on the side of token A, and turned over on the other. -/
theorem priceUsd_eq (counts : pool.counts side) : side.priceUsd isTokenA =
    if side.knownPrice.getD 0 > 0 then
      if isTokenA then side.fairPrice else side.knownPrice.getD 0 * side.amountToken / side.amountOther
    else 0 := by
  have token := (amounts_positive counts).1
  rw [Side.priceUsd, Side.fairPrice]
  simp only [token, and_true, gt_iff_lt]

theorem priceUsd_nonneg (counts : pool.counts side) : 0 ≤ side.priceUsd isTokenA := by
  obtain ⟨token, other⟩ := amounts_positive counts
  unfold Side.priceUsd
  simp only
  split
  · rename_i known
    have price := known.1
    split <;> positivity
  · exact le_rfl

theorem fairPrice_pos_iff (counts : pool.counts side) : 0 < side.fairPrice ↔ 0 < side.knownPrice.getD 0 := by
  obtain ⟨token, other⟩ := amounts_positive counts
  rw [Side.fairPrice, mul_div_assoc]
  exact mul_pos_iff_of_pos_right (div_pos other token)

theorem priceUsd_tokenA (counts : pool.counts side) : side.priceUsd true = max side.fairPrice 0 := by
  rw [priceUsd_eq counts]
  by_cases known : side.knownPrice.getD 0 > 0
  · rw [if_pos known, if_pos rfl, max_eq_left ((fairPrice_pos_iff counts).mpr known).le]
  · rw [if_neg known, max_eq_right (not_lt.mp fun fair => known ((fairPrice_pos_iff counts).mp fair))]

/-- The two ways to price a pool agree where the amounts do. -/
theorem priceUsd_turned_iff (counts : pool.counts side) : side.priceUsd false = side.priceUsd true ↔
    (0 < side.knownPrice.getD 0 → side.amountToken = side.amountOther) := by
  obtain ⟨token, other⟩ := amounts_positive counts
  rw [priceUsd_eq counts, priceUsd_eq counts]
  by_cases known : side.knownPrice.getD 0 > 0
  · simp only [Bool.false_eq_true, if_false, if_true, Side.fairPrice, gt_iff_lt.mp known, forall_const]
    rw [div_eq_div_iff other.ne' token.ne', mul_assoc, mul_assoc, mul_right_inj' known.ne']
    exact ⟨fun squares => (mul_self_inj token.le other.le).mp squares, fun same => by rw [same]⟩
  · rw [if_neg known, if_neg known]
    exact iff_of_true rfl fun impossible => absurd impossible known

theorem priced_congr {left right : Side} {a b : Bool} (first : pool.counts left ↔ pool.counts right)
    (same : pool.counts left → left.priceUsd a = right.priceUsd b) : pool.priced a left = pool.priced b right := by
  refine Option.ext fun entry => ?_
  rw [priced_iff, priced_iff]
  constructor
  · rintro ⟨counts, price, rfl⟩
    rw [same counts] at price ⊢
    exact ⟨first.mp counts, price, rfl⟩
  · rintro ⟨counts, price, rfl⟩
    rw [← same (first.mpr counts)] at price ⊢
    exact ⟨first.mpr counts, price, rfl⟩

/-- The price of a pool's contribution is the one that its side makes fair. -/
def FairlyPriced (tokenAddress : String) (pool : DexPool) : Prop :=
  ∀ side entry, pool.side (pool.tokenA = tokenAddress) = some side →
    contribution tokenAddress pool = some (some entry) → entry.price = side.fairPrice

/-- A pool that counts has no known price for the other token, or the same amount of both. A
pool of the token with itself is priced alike from either side. -/
def Neutral (tokenAddress : String) (pool : DexPool) : Prop :=
  ∀ side, pool.side (pool.tokenA = tokenAddress) = some side → pool.counts side →
    if pool.tokenA = pool.tokenB then
      ∀ turned, pool.side false = some turned → max turned.fairPrice 0 = max side.fairPrice 0
    else 0 < side.knownPrice.getD 0 → side.amountToken = side.amountOther

theorem contribution_eq (tokenAddress : String) (pool : DexPool) : contribution tokenAddress pool =
    (pool.side (pool.tokenA = tokenAddress)).map (pool.priced (pool.tokenA = tokenAddress)) := rfl

/-- Of both sides, or of none, a reserve is an integer. -/
theorem side_cases (pool : DexPool) : (pool.side true = none ∧ pool.side false = none) ∨
    ∃ side turned, pool.side true = some side ∧ pool.side false = some turned ∧
      (pool.counts side ↔ pool.counts turned) := by
  simp only [DexPool.side]
  simp only [if_true, Bool.false_eq_true, if_false]
  cases bigInt pool.reserveA with
  | none => cases bigInt pool.reserveB <;> exact .inl ⟨rfl, rfl⟩
  | some a =>
    cases bigInt pool.reserveB with
    | none => exact .inl ⟨rfl, rfl⟩
    | some b =>
      refine .inr ⟨_, _, rfl, rfl, ?_⟩
      rw [DexPool.counts]
      exact ⟨fun ⟨a, b, v⟩ => ⟨b, a, v⟩, fun ⟨a, b, v⟩ => ⟨b, a, v⟩⟩

theorem tokenA_exchange (different : pool.tokenA ≠ pool.tokenB) (contains : pool.contains tokenAddress) :
    decide (pool.exchange.tokenA = tokenAddress) = !decide (pool.tokenA = tokenAddress) := by
  rcases contains with isA | isB
  · have notB : pool.tokenB ≠ tokenAddress := fun isB => different (isA.trans isB.symm)
    simp [DexPool.exchange, isA, notB]
  · have notA : pool.tokenA ≠ tokenAddress := fun isA => different (isA.trans isB.symm)
    simp [DexPool.exchange, isB, notA]

theorem contribution_exchange (different : pool.tokenA ≠ pool.tokenB) (contains : pool.contains tokenAddress) :
    contribution tokenAddress pool.exchange =
      (pool.side (pool.tokenA = tokenAddress)).map (pool.priced !decide (pool.tokenA = tokenAddress)) := by
  rw [contribution_eq, tokenA_exchange different contains, side_exchange, Bool.not_not]
  rfl

theorem contribution_exchange_self (same : pool.tokenA = pool.tokenB) (contains : pool.contains tokenAddress) :
    contribution tokenAddress pool = (pool.side true).map (pool.priced true) ∧
    contribution tokenAddress pool.exchange = (pool.side false).map (pool.priced true) := by
  have isA : pool.tokenA = tokenAddress := contains.elim id fun isB => same.trans isB
  have turned : pool.exchange.tokenA = tokenAddress := same.symm.trans isA
  simp only [contribution]
  simp only [isA, turned, decide_true, side_exchange, Bool.not_true]
  exact ⟨trivial, rfl⟩

/-- Whichever side a pool is priced from, one price is the fair one. -/
theorem price_fair (turned : side.priceUsd isTokenA = side.priceUsd true)
    (priced : pool.priced isTokenA side = some entry) : entry.price = side.fairPrice := by
  obtain ⟨counts, price, rfl⟩ := priced_iff.mp priced
  change side.priceUsd isTokenA = side.fairPrice
  rw [turned, priceUsd_tokenA counts] at price ⊢
  exact max_eq_left ((lt_max_iff.mp price).resolve_right (lt_irrefl 0)).le

/-- The one direction: contributions of neutral pools do not tell the orientations apart. -/
theorem Neutral.contribution (neutral : Neutral tokenAddress pool) (contains : pool.contains tokenAddress) :
    contribution tokenAddress pool.exchange = contribution tokenAddress pool := by
  by_cases same : pool.tokenA = pool.tokenB
  · obtain ⟨straight, exchanged⟩ := contribution_exchange_self same contains
    rw [straight, exchanged]
    have isA : pool.tokenA = tokenAddress := contains.elim id fun isB => same.trans isB
    obtain ⟨none₁, none₂⟩ | ⟨side, turned, found, found', counted⟩ := side_cases pool
    · rw [none₁, none₂]
    · rw [found, found', Option.map_some, Option.map_some]
      congr 1
      refine priced_congr counted.symm fun counts => ?_
      have fair := neutral side (by simpa [isA] using found) (counted.mpr counts)
      rw [if_pos same] at fair
      rw [priceUsd_tokenA counts, priceUsd_tokenA (counted.mpr counts)]
      exact fair turned found'
  · rw [contribution_exchange same contains, contribution_eq]
    cases found : pool.side (pool.tokenA = tokenAddress) with
    | none => rfl
    | some side =>
      simp only [Option.map_some]
      congr 1
      refine priced_congr Iff.rfl fun counts => ?_
      have amounts := neutral side found counts
      rw [if_neg same, ← priceUsd_turned_iff counts] at amounts
      cases decide (pool.tokenA = tokenAddress) with
      | true => exact amounts
      | false => exact amounts.symm

theorem Neutral.fairlyPriced (neutral : Neutral tokenAddress pool) (contains : pool.contains tokenAddress) :
    FairlyPriced tokenAddress pool := by
  intro side entry found contributed
  rw [contribution_eq, found, Option.map_some, Option.some.injEq] at contributed
  refine price_fair ?_ contributed
  cases isA : decide (pool.tokenA = tokenAddress) with
  | true => rfl
  | false =>
    have notA : pool.tokenA ≠ tokenAddress := of_decide_eq_false isA
    have different : pool.tokenA ≠ pool.tokenB := fun same => notA (contains.elim id fun isB => same.trans isB)
    obtain ⟨counts, _⟩ := priced_iff.mp contributed
    have amounts := neutral side found counts
    rw [if_neg different] at amounts
    exact (priceUsd_turned_iff counts).mpr amounts

theorem Neutral.exchange (neutral : Neutral tokenAddress pool) (contains : pool.contains tokenAddress) :
    Neutral tokenAddress pool.exchange := by
  intro side found counts
  by_cases same : pool.tokenA = pool.tokenB
  · have isA : pool.tokenA = tokenAddress := contains.elim id fun isB => same.trans isB
    have isB : pool.exchange.tokenA = tokenAddress := same.symm.trans isA
    have exchanged : pool.exchange.tokenA = pool.exchange.tokenB := same.symm
    rw [if_pos exchanged]
    intro turned found'
    simp only [isB, decide_true, side_exchange, Bool.not_true, Bool.not_false] at found found'
    obtain ⟨none₁, _⟩ | ⟨left, right, atLeft, atRight, counted⟩ := side_cases pool
    · rw [none₁] at found'
      cases found'
    · cases atLeft.symm.trans found'
      cases atRight.symm.trans found
      have fair := neutral turned (by simpa [isA] using atLeft) (counted.mpr counts)
      rw [if_pos same] at fair
      exact (fair side atRight).symm
  · have exchanged : pool.exchange.tokenA ≠ pool.exchange.tokenB := Ne.symm same
    rw [if_neg exchanged]
    rw [tokenA_exchange same contains, side_exchange, Bool.not_not] at found
    have amounts := neutral side found counts
    rwa [if_neg same] at amounts

theorem contains_exchange (contains : pool.contains tokenAddress) : pool.exchange.contains tokenAddress := contains.symm

/-! ### One pool alone -/

theorem computeVolumeWeightedMedian_singleton (traded : 0 < entry.volume24hUsd) :
    computeVolumeWeightedMedian [entry] = entry.price := by
  have half : 0 + entry.volume24hUsd ≥ entry.volume24hUsd / 2 := by linarith
  simp only [computeVolumeWeightedMedian, List.mergeSort_singleton, List.map_singleton, List.sum_singleton,
    if_neg (not_le.mpr traded), reach, if_pos half, Option.getD_some]

theorem discoverDexPrice_singleton (uncached : reads.cached = none) (pool : DexPool) :
    (discoverDexPrice toLowerCase reads tokenAddress [pool]).map (Option.map DexPrice.priceUsd) =
      (contribution tokenAddress pool).map (Option.map TokenPrice.price) := by
  rw [discoverDexPrice]
  rw [uncached]
  cases contributed : contribution tokenAddress pool with
  | none => simp [contributed]
  | some added =>
    cases added with
    | none => simp [contributed, discover]
    | some entry =>
      rw [contribution_eq] at contributed
      obtain ⟨side, _, priced⟩ := Option.map_eq_some_iff.mp contributed
      obtain ⟨⟨_, _, volume⟩, _, same⟩ := priced_iff.mp priced
      have traded : 0 < entry.volume24hUsd := by
        rw [same]
        exact lt_of_lt_of_le (by norm_num [MIN_LIQUIDITY_THRESHOLD_USD]) volume
      rw [← contribution_eq] at contributed
      simp [contributed, discover, computeVolumeWeightedMedian_singleton traded]

theorem priceUsd_eq_of_price (counts : pool.counts side) {other : Side} (counts' : pool.counts other) {a b : Bool}
    (same : (pool.priced a side).map TokenPrice.price = (pool.priced b other).map TokenPrice.price) :
    side.priceUsd a = other.priceUsd b := by
  have price {side : Side} {a : Bool} (counts : pool.counts side) : ((pool.priced a side).map TokenPrice.price).getD 0 =
      side.priceUsd a := by
    cases priced : pool.priced a side with
    | some entry =>
      obtain ⟨_, _, rfl⟩ := priced_iff.mp priced
      rfl
    | none =>
      refine le_antisymm (priceUsd_nonneg counts) (not_lt.mp fun positive => ?_)
      rw [priced_iff.mpr ⟨counts, positive, rfl⟩] at priced
      cases priced
  rw [← price counts, ← price counts', same]

/-- The other direction, from the list of one pool. -/
theorem neutral_of_keeps (uncached : reads.cached = none) (contains : pool.contains tokenAddress)
    (keeps : (discoverDexPrice toLowerCase reads tokenAddress [pool.exchange]).map (Option.map DexPrice.priceUsd) =
      (discoverDexPrice toLowerCase reads tokenAddress [pool]).map (Option.map DexPrice.priceUsd)) :
    Neutral tokenAddress pool := by
  intro side found counts
  rw [discoverDexPrice_singleton uncached, discoverDexPrice_singleton uncached] at keeps
  by_cases same : pool.tokenA = pool.tokenB
  · rw [if_pos same]
    intro turned found'
    have isA : pool.tokenA = tokenAddress := contains.elim id fun isB => same.trans isB
    obtain ⟨straight, exchanged⟩ := contribution_exchange_self same contains
    rw [decide_eq_true isA] at found
    rw [straight, exchanged, found, found', Option.map_some, Option.map_some, Option.map_some, Option.map_some,
      Option.some.injEq] at keeps
    have counts' : pool.counts turned := by
      obtain ⟨none₁, _⟩ | ⟨left, right, atLeft, atRight, counted⟩ := side_cases pool
      · rw [none₁] at found
        cases found
      · cases atLeft.symm.trans found
        cases atRight.symm.trans found'
        exact counted.mp counts
    rw [← priceUsd_tokenA counts, ← priceUsd_tokenA counts']
    exact priceUsd_eq_of_price counts' counts keeps
  · rw [if_neg same, ← priceUsd_turned_iff counts]
    rw [contribution_exchange same contains, contribution_eq, found, Option.map_some, Option.map_some,
      Option.map_some, Option.map_some, Option.some.injEq] at keeps
    have prices := priceUsd_eq_of_price counts counts keeps
    cases isA : decide (pool.tokenA = tokenAddress) with
    | true =>
      rw [isA] at prices
      exact prices
    | false =>
      rw [isA] at prices
      exact prices.symm

/-- When a pool may be exchanged in any list of pools with the token, and adds the fair price
both ways. -/
theorem exchange_keeps_price_iff (toLowerCase : String → String) (reads : Reads) (tokenAddress : String)
    (pool : DexPool)
    (uncached : reads.cached = none) (contains : pool.contains tokenAddress) :
    ((∀ before after : List DexPool, (∀ other ∈ before ++ after, other.contains tokenAddress) →
        (discoverDexPrice toLowerCase reads tokenAddress (before ++ pool.exchange :: after)).map
            (Option.map DexPrice.priceUsd) =
          (discoverDexPrice toLowerCase reads tokenAddress (before ++ pool :: after)).map
            (Option.map DexPrice.priceUsd)) ∧
      FairlyPriced tokenAddress pool ∧ FairlyPriced tokenAddress pool.exchange) ↔ Neutral tokenAddress pool := by
  constructor
  · rintro ⟨keeps, _, _⟩
    exact neutral_of_keeps uncached contains (keeps [] [] fun _ member => by cases member)
  · intro neutral
    refine ⟨fun before after _ => ?_, neutral.fairlyPriced contains,
      (neutral.exchange contains).fairlyPriced (contains_exchange contains)⟩
    simp only [discoverDexPrice]
    simp only [uncached, List.mapM_append, List.mapM_cons, neutral.contribution contains]

/-- A pool of US dollars and the token, with the token on the side of B. -/
def dollarPool (dollars tokens : ℚ) : DexPool where
  dexName := "soroswap"
  tokenA := "USDC"
  tokenB := "TOKEN"
  reserveA := some dollars
  reserveB := some tokens
  tokenADecimals := none
  tokenBDecimals := none
  priceAUsd := some 1
  priceBUsd := none
  volume24hUsd := some 5000
  tvlUsd := none

def noReads : Reads := ⟨none, [], 0, 0⟩

theorem exchange_keeps_price_balanced :
    (discoverDexPrice id noReads "TOKEN" [(dollarPool 20000000 20000000).exchange]).map (Option.map DexPrice.priceUsd) =
      (discoverDexPrice id noReads "TOKEN" [dollarPool 20000000 20000000]).map (Option.map DexPrice.priceUsd) := by
  refine ((exchange_keeps_price_iff id noReads "TOKEN" (dollarPool 20000000 20000000) rfl (.inr rfl)).mpr ?_).1 [] []
    fun _ member => by cases member
  intro side found _
  have same : side.amountToken = side.amountOther := by
    obtain rfl := Option.some.inj found
    rfl
  exact fun _ => same

/-- Two dollars are the price of a token where there are twice as many of them, and half a
dollar when the token is the second of the pool. -/
theorem exchange_changes_price :
    ¬ ∀ (toLowerCase : String → String) (reads : Reads) (tokenAddress : String) (before after : List DexPool)
      (pool : DexPool), reads.cached = none → (∀ other ∈ before ++ pool :: after, other.contains tokenAddress) →
      (discoverDexPrice toLowerCase reads tokenAddress (before ++ pool.exchange :: after)).map
          (Option.map DexPrice.priceUsd) =
        (discoverDexPrice toLowerCase reads tokenAddress (before ++ pool :: after)).map
          (Option.map DexPrice.priceUsd) := by
  intro claimed
  have same := claimed id noReads "TOKEN" [] [] (dollarPool 20000000 10000000) rfl fun other member => by
    obtain rfl := List.mem_singleton.mp member
    exact .inr rfl
  have uncached : noReads.cached = none := rfl
  simp only [List.nil_append, discoverDexPrice_singleton uncached] at same
  revert same
  decide +kernel

end Octraban.Pricing
