import Mathlib.Tactic.NormNum
import Mathlib.Tactic.Positivity
import Octraban.Core.OrderedMap

/-! deriveTokenPrices of dex/pricing.ts, with reserves as rationals: stablecoins are worth one dollar, and what
other tokens are worth is implied by pools in five passes. -/
namespace Octraban.TokenPrices

inductive Source where
  | stable
  | pool
  deriving DecidableEq

structure PricedToken where
  priceUsd : ℚ
  source : Source
  confidence : ℚ
  deriving DecidableEq

structure PricingPool where
  poolAddress : String
  tokenA : String
  tokenB : String
  symbolA : Option String
  symbolB : Option String
  reserveAHuman : ℚ
  reserveBHuman : ℚ

/-- The two maps of a run. -/
structure Registry where
  prices : OrderedMap String PricedToken := OrderedMap.empty
  refDepth : OrderedMap String (WithTop ℚ) := OrderedMap.empty

def STABLE_SYMBOLS : List String := ["USDC", "USDT", "DAI", "USDX", "USDD", "BUSD", "GUSD", "USD", "USDGLO"]

/-- The price of a stablecoin. -/
def anchor : PricedToken := ⟨1, .stable, 1⟩

section
variable (toUpperCase : String → String)

def isStableSymbol (symbol : Option String) : Bool := symbol.any fun symbol => STABLE_SYMBOLS.contains (toUpperCase symbol)

end

/-- A token is priced from the other one of its pool, with the entries of both as they were before the pool; the
boolean is `changed`. -/
def priceFrom (reference target : Option PricedToken) (reserveRef reserveTarget : ℚ) (token : String)
    (run : Registry × Bool) : Registry × Bool :=
  match reference with
  | none => run
  | some a =>
    if target.map PricedToken.source = some .stable then run
    else
      let sideUsd := reserveRef * a.priceUsd
      if (run.1.refDepth.get token).getD 0 < (sideUsd : WithTop ℚ) then
        ({ prices := run.1.prices.set token ⟨sideUsd / reserveTarget, .pool, max (1 / 10) (a.confidence * (9 / 10))⟩
           refDepth := run.1.refDepth.set token sideUsd }, true)
      else run

def relax (run : Registry × Bool) (p : PricingPool) : Registry × Bool :=
  if p.reserveAHuman ≤ 0 ∨ p.reserveBHuman ≤ 0 then run
  else
    let a := run.1.prices.get p.tokenA
    let b := run.1.prices.get p.tokenB
    priceFrom b a p.reserveBHuman p.reserveAHuman p.tokenA (priceFrom a b p.reserveAHuman p.reserveBHuman p.tokenB run)

/-- One pass, with whether it changed anything. -/
def propagate (pools : List PricingPool) (s : Registry) : Registry × Bool := pools.foldl relax (s, false)

def passes (pools : List PricingPool) : ℕ → Registry → Registry
  | 0, s => s
  | n + 1, s =>
    let (next, changed) := propagate pools s
    if changed then passes pools n next else next

/-- The pool has the token, with the symbol of a stablecoin. -/
def Names (toUpperCase : String → String) (p : PricingPool) (token : String) : Prop :=
  (p.tokenA = token ∧ isStableSymbol toUpperCase p.symbolA) ∨ (p.tokenB = token ∧ isStableSymbol toUpperCase p.symbolB)

def Anchored (toUpperCase : String → String) (pools : List PricingPool) (token : String) : Prop :=
  ∃ p ∈ pools, Names toUpperCase p token

/-- A pool with positive reserves, by which one token is worth so many of another one. -/
inductive Leg (pools : List PricingPool) : String → String → ℚ → Prop where
  | bFromA {p : PricingPool} : p ∈ pools → 0 < p.reserveAHuman → 0 < p.reserveBHuman →
      Leg pools p.tokenA p.tokenB (p.reserveAHuman / p.reserveBHuman)
  | aFromB {p : PricingPool} : p ∈ pools → 0 < p.reserveAHuman → 0 < p.reserveBHuman →
      Leg pools p.tokenB p.tokenA (p.reserveBHuman / p.reserveAHuman)

/-- A token that so many pools connect to a stablecoin. -/
inductive Within (toUpperCase : String → String) (pools : List PricingPool) : ℕ → String → Prop where
  | stable : Anchored toUpperCase pools token → Within toUpperCase pools hops token
  | hop : Within toUpperCase pools hops reference → Leg pools reference token rate →
      Within toUpperCase pools (hops + 1) token

/-- A price that a chain of pools from a stablecoin implies, through tokens that are no stablecoins. -/
inductive Implied (toUpperCase : String → String) (pools : List PricingPool) : String → ℚ → Prop where
  | stable : Anchored toUpperCase pools token → Implied toUpperCase pools token 1
  | hop : Implied toUpperCase pools reference price → Leg pools reference token rate →
      ¬ Anchored toUpperCase pools token → Implied toUpperCase pools token (price * rate)

variable {toUpperCase : String → String} {pools rest : List PricingPool} {p : PricingPool} {s : Registry}
  {run : Registry × Bool} {token reference : String} {priced : PricedToken} {price rate : ℚ}

theorem Leg.rate_pos (leg : Leg pools reference token rate) : 0 < rate := by
  cases leg with
  | bFromA _ a b => exact div_pos a b
  | aFromB _ a b => exact div_pos b a

theorem Implied.pos (implied : Implied toUpperCase pools token price) : 0 < price := by
  induction implied with
  | stable _ => exact one_pos
  | hop _ leg _ ih => exact mul_pos ih leg.rate_pos

/-! ### Stablecoins -/

/-- The entries of `next` are those of `s` and, where `s` has none, an anchor for each of these tokens. -/
def Seeds (s next : Registry) (tokens : String → Prop) : Prop := ∀ token priced, next.prices.get token = some priced ↔
  s.prices.get token = some priced ∨ (s.prices.get token = none ∧ tokens token ∧ priced = anchor)

theorem Seeds.trans {next last : Registry} {first second : String → Prop} (seeds : Seeds s next first)
    (later : Seeds next last second) : Seeds s last fun token => first token ∨ second token := by
  intro token priced
  rw [later]
  cases known : s.prices.get token with
  | some old =>
    have kept := (seeds token old).mpr (.inl known)
    rw [kept]
    simp
  | none =>
    by_cases now : first token
    · rw [(seeds token anchor).mpr (.inr ⟨known, now, rfl⟩)]
      simp [now, eq_comm]
    · have fresh : next.prices.get token = none := by
        refine Option.eq_none_iff_forall_ne_some.mpr fun found same => ?_
        rcases (seeds token found).mp same with old | new
        · rw [known] at old
          cases old
        · exact now new.2.1
      rw [fresh]
      simp [now]

/-- No token has a depth without a price. -/
def DepthsKnown (s : Registry) : Prop := ∀ token, s.prices.get token = none → s.refDepth.get token = none

theorem DepthsKnown.set (known : DepthsKnown s) (token : String) (priced : PricedToken) (depth : WithTop ℚ) :
    DepthsKnown { prices := s.prices.set token priced, refDepth := s.refDepth.set token depth } := by
  intro other unpriced
  by_cases same : other = token
  · subst same
    rw [OrderedMap.get_set_self] at unpriced
    cases unpriced
  · rw [OrderedMap.get_set_ne same] at unpriced ⊢
    exact known other unpriced

/-- What holds of the maps throughout a run. -/
structure Sound (toUpperCase : String → String) (pools : List PricingPool) (s : Registry) : Prop where
  anchored : ∀ token, Anchored toUpperCase pools token → s.prices.get token = some anchor
  implied : ∀ token priced, s.prices.get token = some priced → Implied toUpperCase pools token priced.priceUsd
  depths : DepthsKnown s

theorem not_anchored (sound : Sound toUpperCase pools s)
    (other : (s.prices.get token).map PricedToken.source ≠ some .stable) : ¬ Anchored toUpperCase pools token := by
  intro anchored
  rw [sound.anchored token anchored] at other
  exact other rfl

theorem Sound.set (sound : Sound toUpperCase pools s) (free : ¬ Anchored toUpperCase pools token)
    (implied : Implied toUpperCase pools token priced.priceUsd) (depth : WithTop ℚ) :
    Sound toUpperCase pools { prices := s.prices.set token priced, refDepth := s.refDepth.set token depth } where
  anchored other anchored := by
    have ne : other ≠ token := fun same => free (same ▸ anchored)
    rw [OrderedMap.get_set_ne ne]
    exact sound.anchored other anchored
  implied other found known := by
    by_cases same : other = token
    · subst same
      rw [OrderedMap.get_set_self] at known
      cases known
      exact implied
    · rw [OrderedMap.get_set_ne same] at known
      exact sound.implied other found known
  depths := sound.depths.set _ _ _

/-- What one side of a pool does: nothing, or a price that the other side implies. -/
theorem priceFrom_cases (known target : Option PricedToken) (reserveRef reserveTarget : ℚ) (token : String)
    (run : Registry × Bool) :
    priceFrom known target reserveRef reserveTarget token run = run ∨
      ∃ a depth confidence, known = some a ∧ target.map PricedToken.source ≠ some .stable ∧
        priceFrom known target reserveRef reserveTarget token run =
          ({ prices := run.1.prices.set token ⟨a.priceUsd * (reserveRef / reserveTarget), .pool, confidence⟩
             refDepth := run.1.refDepth.set token depth }, true) := by
  unfold priceFrom
  split
  · exact .inl rfl
  · rename_i a
    split
    · exact .inl rfl
    · rename_i free
      dsimp only
      split
      · refine .inr ⟨a, (reserveRef * a.priceUsd : ℚ), max (1 / 10) (a.confidence * (9 / 10)), rfl, free, ?_⟩
        rw [mul_div_assoc' a.priceUsd, mul_comm reserveRef]
      · exact .inl rfl

theorem Sound.priceFrom {known target : Option PricedToken} {reserveRef reserveTarget : ℚ}
    (sound : Sound toUpperCase pools run.1) (leg : Leg pools reference token (reserveRef / reserveTarget))
    (implied : ∀ a, known = some a → Implied toUpperCase pools reference a.priceUsd)
    (free : target.map PricedToken.source ≠ some .stable → ¬ Anchored toUpperCase pools token) :
    Sound toUpperCase pools (priceFrom known target reserveRef reserveTarget token run).1 := by
  rcases priceFrom_cases known target reserveRef reserveTarget token run with same | ⟨a, depth, confidence, found, pool, changed⟩
  · rw [same]
    exact sound
  · rw [changed]
    exact sound.set (free pool) (.hop (implied a found) leg (free pool)) depth

theorem Sound.relax (sound : Sound toUpperCase pools run.1) (member : p ∈ pools) :
    Sound toUpperCase pools (relax run p).1 := by
  unfold TokenPrices.relax
  split
  · exact sound
  · rename_i positive
    obtain ⟨a, b⟩ := not_or.mp positive
    have fromA := Leg.bFromA member (not_le.mp a) (not_le.mp b)
    have fromB := Leg.aFromB member (not_le.mp a) (not_le.mp b)
    have first := sound.priceFrom fromA (sound.implied _) (not_anchored sound)
    exact first.priceFrom fromB (sound.implied _) (not_anchored sound)

theorem Sound.foldl (run : Registry × Bool) (sound : Sound toUpperCase pools run.1) (among : ∀ p ∈ rest, p ∈ pools) :
    Sound toUpperCase pools (rest.foldl TokenPrices.relax run).1 := by
  induction rest generalizing run with
  | nil => exact sound
  | cons p rest ih =>
    rw [List.forall_mem_cons] at among
    exact ih _ (sound.relax among.1) among.2

/-! ### Priced tokens stay priced -/

/-- A step leaves everything as it is, or the pass has changed something. -/
def Noted (run next : Registry × Bool) : Prop := next = run ∨ next.2 = true

theorem Noted.trans {next last : Registry × Bool} (noted : Noted run next) (later : Noted next last) : Noted run last := by
  rcases later with rfl | changed
  · exact noted
  · exact .inr changed

theorem Implied.within (implied : Implied toUpperCase pools token price) : ∃ hops, Within toUpperCase pools hops token := by
  induction implied with
  | stable anchored => exact ⟨0, .stable anchored⟩
  | hop _ leg _ ih =>
    obtain ⟨hops, within⟩ := ih
    exact ⟨hops + 1, .hop within leg⟩

theorem Leg.perm {other : List PricingPool} (perm : pools.Perm other) (leg : Leg other reference token rate) :
    Leg pools reference token rate := by
  cases leg with
  | bFromA member a b => exact .bFromA (perm.mem_iff.mpr member) a b
  | aFromB member a b => exact .aFromB (perm.mem_iff.mpr member) a b

theorem anchored_perm {other : List PricingPool} (perm : pools.Perm other) :
    Anchored toUpperCase other token ↔ Anchored toUpperCase pools token :=
  exists_congr fun _ => and_congr_left fun _ => perm.mem_iff.symm

theorem Implied.perm {other : List PricingPool} (perm : pools.Perm other) (implied : Implied toUpperCase other token price) :
    Implied toUpperCase pools token price := by
  induction implied with
  | stable anchored => exact .stable ((anchored_perm perm).mp anchored)
  | hop _ leg free ih => exact .hop ih (leg.perm perm) fun anchored => free ((anchored_perm perm).mpr anchored)

theorem Within.perm {other : List PricingPool} {hops : ℕ} (perm : pools.Perm other)
    (within : Within toUpperCase pools hops token) : Within toUpperCase other hops token := by
  induction within with
  | stable anchored => exact .stable ((anchored_perm perm).mpr anchored)
  | hop _ leg ih => exact .hop ih (leg.perm perm.symm)

def poolOf (poolAddress tokenA tokenB : String) (reserveAHuman reserveBHuman : ℚ) : PricingPool :=
  ⟨poolAddress, tokenA, tokenB, some tokenA, some tokenB, reserveAHuman, reserveBHuman⟩

def shallow : PricingPool := poolOf "P1" "USDC" "X" 100 100

def between : PricingPool := poolOf "P2" "X" "Y" 10000 10000

def deep : PricingPool := poolOf "P3" "USDC" "X" 1000 2000

/-- Each pool is a hop further from the stablecoin. -/
def chain : List PricingPool := [poolOf "P1" "USDC" "T1" 1 1, poolOf "P2" "T1" "T2" 1 1, poolOf "P3" "T2" "T3" 1 1,
  poolOf "P4" "T3" "T4" 1 1, poolOf "P5" "T4" "T5" 1 1, poolOf "P6" "T5" "T6" 1 1]

end Octraban.TokenPrices
