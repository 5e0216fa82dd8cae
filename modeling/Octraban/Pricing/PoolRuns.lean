import Octraban.Pricing.PoolMath

/-! Prices of dex/pool-math.ts along a row of trades, each one priced by `getAmountOut` at the reserves that the
trades before it have left. -/
namespace Octraban.PoolMath
open JavaScript

inductive Side where
  | a | b
  deriving DecidableEq

structure Reserves where
  a : ℤ
  b : ℤ
  deriving DecidableEq

/-- What is in the pool on the side that a trade pays into. -/
def Reserves.paid (reserves : Reserves) : Side → ℤ
  | .a => reserves.a
  | .b => reserves.b

def Reserves.taken (reserves : Reserves) : Side → ℤ
  | .a => reserves.b
  | .b => reserves.a

def Reserves.move (reserves : Reserves) (amountIn amountOut : ℤ) : Side → Reserves
  | .a => ⟨reserves.a + amountIn, reserves.b - amountOut⟩
  | .b => ⟨reserves.a - amountOut, reserves.b + amountIn⟩

structure Trade where
  side : Side
  amountIn : ℤ

def trade (feeBps : Number) (reserves : Reserves) (t : Trade) : Option (ℤ × Reserves) :=
  (getAmountOut t.amountIn (reserves.paid t.side) (reserves.taken t.side) feeBps).map fun amountOut =>
    (amountOut, reserves.move t.amountIn amountOut t.side)

/-- What the trades yield one after the other, and the reserves after the last. -/
def trades (feeBps : Number) : Reserves → List Trade → Option (List ℤ × Reserves)
  | reserves, [] => some ([], reserves)
  | reserves, t :: rest =>
    (trade feeBps reserves t).bind fun (amountOut, next) =>
      (trades feeBps next rest).map fun (later, last) => (amountOut :: later, last)

/-- Liquidity on both sides. -/
structure Reserves.Live (reserves : Reserves) : Prop where
  a_pos : 0 < reserves.a
  b_pos : 0 < reserves.b

/-- A fee of which something, and no more than everything, is left of an input. -/
structure Charges (feeBps : Number) (factor : ℤ) : Prop where
  left : feeFactor feeBps = some factor
  pos : 0 < factor
  le : factor ≤ BPS

variable {reserves next last : Reserves} {feeBps : Number} {factor amountIn amountOut : ℤ} {side : Side}

theorem Reserves.Live.paid_pos (live : reserves.Live) (side : Side) : 0 < reserves.paid side := by
  cases side with
  | a => exact live.a_pos
  | b => exact live.b_pos

theorem Reserves.Live.taken_pos (live : reserves.Live) (side : Side) : 0 < reserves.taken side := by
  cases side with
  | a => exact live.b_pos
  | b => exact live.a_pos

theorem Reserves.live_of_sides (side : Side) (paid : 0 < reserves.paid side) (taken : 0 < reserves.taken side) : reserves.Live := by
  cases side with
  | a => exact ⟨paid, taken⟩
  | b => exact ⟨taken, paid⟩

theorem Reserves.paid_mul_taken (reserves : Reserves) (side : Side) :
    reserves.paid side * reserves.taken side = reserves.a * reserves.b := by
  cases side with
  | a => rfl
  | b => exact mul_comm _ _

@[simp] theorem Reserves.paid_move (reserves : Reserves) (side : Side) :
    (reserves.move amountIn amountOut side).paid side = reserves.paid side + amountIn := by
  cases side <;> rfl

@[simp] theorem Reserves.taken_move (reserves : Reserves) (side : Side) :
    (reserves.move amountIn amountOut side).taken side = reserves.taken side - amountOut := by
  cases side <;> rfl

/-- The pool as a trade sees it. -/
def Reserves.Live.pool (live : reserves.Live) (charges : Charges feeBps factor) (side : Side) : Pool :=
  ⟨reserves.paid side, reserves.taken side, factor, live.paid_pos side, live.taken_pos side, charges.pos, charges.le⟩

theorem getAmountOut_of_factor (left : feeFactor feeBps = some factor) (reserveIn reserveOut : ℤ) :
    getAmountOut amountIn reserveIn reserveOut feeBps =
      getAmountOut amountIn reserveIn reserveOut (.finite (BPS - factor : ℤ)) := by
  unfold getAmountOut
  rw [left, feeFactor_intCast, sub_sub_cancel]

theorem trade_eq (live : reserves.Live) (charges : Charges feeBps factor) (given : 0 ≤ amountIn) :
    trade feeBps reserves ⟨side, amountIn⟩ =
      some ((live.pool charges side).yield amountIn, reserves.move amountIn ((live.pool charges side).yield amountIn) side) := by
  have received : getAmountOut amountIn (reserves.paid side) (reserves.taken side) feeBps =
      some ((live.pool charges side).yield amountIn) := by
    rcases given.eq_or_lt with rfl | given
    · rw [getAmountOut, if_pos (.inl le_rfl), Pool.yield, zero_mul, zero_mul, Int.zero_ediv]
    · rw [getAmountOut_of_factor charges.left]
      exact getAmountOut_eq (live.pool charges side) given
  rw [trade, received]
  rfl

theorem yield_nonneg (pool : Pool) (given : 0 ≤ amountIn) : 0 ≤ pool.yield amountIn := by
  apply (Pool.le_yield_iff given).mpr
  rw [Pool.cost, mul_zero, zero_mul]
  exact mul_nonneg given (Pool.worth_nonneg pool.out_pos.le)

/-- A trade keeps liquidity on both sides, and leaves a product of the reserves that is no less. -/
theorem trade_spec (live : reserves.Live) (charges : Charges feeBps factor) (given : 0 ≤ amountIn)
    (traded : trade feeBps reserves ⟨side, amountIn⟩ = some (amountOut, next)) :
    0 ≤ amountOut ∧ next.Live ∧ reserves.a * reserves.b ≤ next.a * next.b := by
  rw [trade_eq live charges given] at traded
  cases traded
  have kept : (live.pool charges side).yield amountIn < reserves.taken side := Pool.yield_lt given
  have paid := live.paid_pos side
  refine ⟨yield_nonneg _ given, Reserves.live_of_sides side ?_ ?_, ?_⟩
  · rw [Reserves.paid_move]
    omega
  · rw [Reserves.taken_move]
    omega
  · rw [← Reserves.paid_mul_taken reserves side, ← Reserves.paid_mul_taken _ side, Reserves.paid_move,
      Reserves.taken_move]
    have grown := @Pool.product_le (live.pool charges side) amountIn given
    exact grown

theorem trades_cons {t : Trade} {rest : List Trade} {received : List ℤ} :
    trades feeBps reserves (t :: rest) = some (received, last) ↔ ∃ amountOut next later,
      trade feeBps reserves t = some (amountOut, next) ∧ trades feeBps next rest = some (later, last) ∧
      received = amountOut :: later := by
  simp only [trades, Option.bind_eq_some_iff, Option.map_eq_some_iff, Prod.exists, Prod.mk.injEq]
  constructor
  · rintro ⟨amountOut, next, traded, later, end_, followed, rfl, rfl⟩
    exact ⟨amountOut, next, later, traded, followed, rfl⟩
  · rintro ⟨amountOut, next, later, traded, followed, rfl⟩
    exact ⟨amountOut, next, traded, later, last, followed, rfl, rfl⟩

theorem trades_spec (live : reserves.Live) (charges : Charges feeBps factor) {ts : List Trade}
    (given : ∀ t ∈ ts, 0 ≤ t.amountIn) :
    ∃ received last, trades feeBps reserves ts = some (received, last) ∧ last.Live ∧
      (∀ amount ∈ received, 0 ≤ amount) ∧ reserves.a * reserves.b ≤ last.a * last.b := by
  induction ts generalizing reserves with
  | nil => exact ⟨[], reserves, rfl, live, List.forall_mem_nil _, le_rfl⟩
  | cons t rest ih =>
    obtain ⟨first, others⟩ := List.forall_mem_cons.mp given
    have traded := @trade_eq reserves feeBps factor t.amountIn t.side live charges first
    obtain ⟨nonneg, kept, grown⟩ := trade_spec live charges first traded
    obtain ⟨later, last, followed, live_last, later_nonneg, later_grown⟩ := ih kept others
    refine ⟨_, last, trades_cons.mpr ⟨_, _, later, traded, followed, rfl⟩, live_last, ?_, grown.trans later_grown⟩
    exact List.forall_mem_cons.mpr ⟨nonneg, later_nonneg⟩

/-- The reserves after any trades are worth no less: whoever leaves the pool no richer in one of the two tokens leaves
it no poorer in the other. -/
theorem trades_take_nothing (live : reserves.Live) (charges : Charges feeBps factor) (ts : List Trade)
    (given : ∀ t ∈ ts, 0 ≤ t.amountIn) :
    ∃ received last, trades feeBps reserves ts = some (received, last) ∧ last.Live ∧ (∀ amount ∈ received, 0 ≤ amount) ∧
      reserves.a * reserves.b ≤ last.a * last.b ∧ (last.a ≤ reserves.a → reserves.b ≤ last.b) ∧
      (last.b ≤ reserves.b → reserves.a ≤ last.a) := by
  obtain ⟨received, last, ran, live_last, nonneg, grown⟩ := trades_spec live charges given
  refine ⟨received, last, ran, live_last, nonneg, grown, fun fewer => ?_, fun fewer => ?_⟩
  · apply le_of_mul_le_mul_left _ live.a_pos
    calc reserves.a * reserves.b
        ≤ last.a * last.b := grown
      _ ≤ reserves.a * last.b := mul_le_mul_of_nonneg_right fewer live_last.b_pos.le
  · apply le_of_mul_le_mul_right _ live.b_pos
    calc reserves.a * reserves.b
        ≤ last.a * last.b := grown
      _ ≤ last.a * reserves.b := mul_le_mul_of_nonneg_left fewer live_last.a_pos.le

theorem trades_take_nothing_there_and_back : ∃ received last,
    trades (.finite (30 : ℤ)) ⟨1000, 3000⟩ [⟨.a, 100⟩, ⟨.b, 271⟩] = some (received, last) ∧ last.Live ∧
      (∀ amount ∈ received, 0 ≤ amount) ∧ (1000 : ℤ) * 3000 ≤ last.a * last.b ∧
      (last.a ≤ 1000 → 3000 ≤ last.b) ∧ (last.b ≤ 3000 → 1000 ≤ last.a) :=
  trades_take_nothing (⟨by decide, by decide⟩ : Reserves.Live ⟨1000, 3000⟩)
    ⟨feeFactor_intCast 30, by decide, by decide⟩ _ (by decide)

/-- What several inputs on one side yield is worth its cost at the reserves before the first of them. -/
theorem cost_le_of_trades (live : reserves.Live) (charges : Charges feeBps factor) {amounts : List ℤ}
    (given : ∀ amount ∈ amounts, 0 ≤ amount) {received : List ℤ}
    (ran : trades feeBps reserves (amounts.map (Trade.mk side)) = some (received, last)) :
    0 ≤ received.sum ∧ received.sum ≤ reserves.taken side ∧
      (live.pool charges side).cost received.sum ≤ amounts.sum * (live.pool charges side).worth received.sum := by
  induction amounts generalizing reserves received with
  | nil =>
    cases ran
    simp only [List.sum_nil, zero_mul, Pool.cost, mul_zero, le_refl, and_true, true_and]
    exact (live.taken_pos side).le
  | cons amount rest ih =>
    obtain ⟨first, others⟩ := List.forall_mem_cons.mp given
    obtain ⟨amountOut, next, later, traded, followed, rfl⟩ := trades_cons.mp ran
    obtain ⟨nonneg, kept, _⟩ := trade_spec live charges first traded
    obtain ⟨later_nonneg, within, paid_later⟩ := ih kept others followed
    have paid : (live.pool charges side).cost amountOut ≤ amount * (live.pool charges side).worth amountOut := by
      rw [trade_eq live charges first] at traded
      cases traded
      exact (Pool.le_yield_iff first).mp le_rfl
    obtain rfl : next = reserves.move amount amountOut side := by
      rw [trade_eq live charges first] at traded
      cases traded
      rfl
    -- the fee on what the later trades take is lost as well
    have lost : 0 ≤ amount * later.sum * (BPS - factor) :=
      mul_nonneg (mul_nonneg first later_nonneg) (sub_nonneg.mpr charges.le)
    simp only [Pool.cost, Pool.worth, Reserves.Live.pool, Reserves.paid_move, Reserves.taken_move] at paid_later paid within ⊢
    rw [List.sum_cons, List.sum_cons]
    refine ⟨by omega, by omega, ?_⟩
    linarith

/-- A trade that is split up, in whatever parts, yields no more than the trade as a whole. -/
theorem split_yields_no_more (live : reserves.Live) (charges : Charges feeBps factor) (side : Side) (amounts : List ℤ)
    (given : ∀ amount ∈ amounts, 0 ≤ amount) :
    ∃ received last whole, trades feeBps reserves (amounts.map (Trade.mk side)) = some (received, last) ∧
      getAmountOut amounts.sum (reserves.paid side) (reserves.taken side) feeBps = some whole ∧ received.sum ≤ whole := by
  have all : ∀ t ∈ amounts.map (Trade.mk side), 0 ≤ t.amountIn := by
    intro t member
    obtain ⟨amount, listed, rfl⟩ := List.mem_map.mp member
    exact given amount listed
  have total : 0 ≤ amounts.sum := List.sum_nonneg given
  obtain ⟨received, last, ran, _⟩ := trades_spec live charges all
  obtain ⟨_, _, paid⟩ := cost_le_of_trades live charges given ran
  have single := @trade_eq reserves feeBps factor amounts.sum side live charges total
  obtain ⟨whole, priced, traded⟩ := Option.map_eq_some_iff.mp single
  cases traded
  exact ⟨received, last, _, ran, priced, (Pool.le_yield_iff total).mpr paid⟩

theorem split_yields_no_more_in_halves : ∃ received last whole,
    trades (.finite (30 : ℤ)) ⟨1000, 3000⟩ ([50, 50].map (Trade.mk .a)) = some (received, last) ∧
      getAmountOut ([50, 50] : List ℤ).sum 1000 3000 (.finite (30 : ℤ)) = some whole ∧ received.sum ≤ whole :=
  split_yields_no_more (⟨by decide, by decide⟩ : Reserves.Live ⟨1000, 3000⟩)
    ⟨feeFactor_intCast 30, by decide, by decide⟩ .a [50, 50] (by decide)

end Octraban.PoolMath
