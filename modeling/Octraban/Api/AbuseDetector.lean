import Octraban.Api.ApiKeys
import Octraban.Api.Usage

/-! abuseDetector.js in the middleware stack of api.js. The token bucket enforces the limit
of a request before abuseDetector looks at it. -/
namespace Octraban.AbuseDetector
open JavaScript

abbrev Tier := ApiKeys.Tier
abbrev EndpointGroup := Usage.EndpointGroup

structure Limits where
  rpm : Number
  burst : Nat
  deriving DecidableEq

def tierBurstDefaults : Tier → Nat
  | .unauthenticated => 10
  | .free => 50
  | .pro => 200
  | .enterprise => 500

def groupTierLimits : EndpointGroup → Tier → Number
  | _, .enterprise => .infinite false
  | .events, .unauthenticated | .default, .unauthenticated => .finite 60
  | .events, .free | .default, .free => .finite 1000
  | .events, .pro | .default, .pro => .finite 10000
  | .search, .unauthenticated => .finite 30
  | .search, .free => .finite 500
  | .search, .pro => .finite 5000
  | .contracts, .unauthenticated => .finite 10
  | .contracts, .free => .finite 100
  | .contracts, .pro => .finite 1000
  | .simulate, .unauthenticated => .finite 5
  | .simulate, .free => .finite 50
  | .simulate, .pro => .finite 500
  | .websocket, .unauthenticated => .finite 3
  | .websocket, .free => .finite 30
  | .websocket, .pro => .finite 300

/-- An override counts when it is a finite positive number. -/
def getTierLimits (endpointGroup : EndpointGroup) (tier : Tier) (overrideRpm : Option Number) : Limits where
  rpm := (overrideRpm.filter fun rpm => rpm.isFinite && (Number.finite 0).lt rpm).getD
    (groupTierLimits endpointGroup tier)
  burst := tierBurstDefaults tier

structure RateContext where
  clientId : String
  tier : Tier
  rateLimit : Option Number
  geoMultiplier : Option Number

structure Request extends ApiKeys.Request where
  query : String → Option String

/-- The limits that the bucket of a request has under a context. -/
def Request.limits (req : Request) (rateContext : RateContext) : Limits :=
  getTierLimits (Usage.resolveEndpointGroup req.path) rateContext.tier rateContext.rateLimit

/-- What Redis answers: nothing stands for an error. No command of one request reads what
an earlier one of them wrote, but for the list, which the answer of `lRange` has whole. -/
structure Redis where
  get : String → Option (Option String)
  rPush : String → String → Option Unit
  lTrim : String → Option Unit
  expire : String → Option Unit
  lRange : String → Option (List String)
  incr : String → Option Int
  set : String → Option Unit

def tokenisePath (urlPath : String) : Finset String := ((split urlPath '/').filter (· ≠ "")).toFinset

def jaccardSimilarity (a b : Finset String) : Number :=
  if a.card = 0 ∧ b.card = 0 then .finite 1
  else if a.card = 0 ∨ b.card = 0 then .finite 0
  else roundRat ((a ∩ b).card / (a.card + b.card - (a ∩ b).card : ℚ))

def averageJaccard (candidate : Finset String) (history : List (Finset String)) : Number :=
  if history = [] then .finite 0
  else
    let total := history.foldl (fun sum h => Number.add sum (jaccardSimilarity candidate h)) (Number.finite 0)
    total.apply (· / history.length)

def scrapeSimilarityThreshold : Number := roundRat (9 / 10)

def scrapePenaltyFactor : Number := roundRat (1 / 10)

def paginationThreshold : Int := 20

def penaltyRate : Number := .finite 5

def isBlocked (redis : Redis) (ip : String) : Bool :=
  (redis.get ("abuse:block:" ++ ip)).any Option.isSome

/-- One failing read hides the other. -/
def hasPenalty (redis : Redis) (clientId endpoint : String) : Bool :=
  match redis.get ("abuse:penalty:" ++ clientId ++ ":" ++ endpoint),
    redis.get ("abuse:penalty:" ++ clientId ++ ":*") with
  | some specific, some wildcard => specific.isSome || wildcard.isSome
  | _, _ => false

/-- The commands before the penalty: the similarity of the path to the earlier ones. -/
def scrapeSimilarity (redis : Redis) (clientId path : String) : Option Number := do
  let scrapeKey := "abuse:scrape:" ++ clientId
  redis.rPush scrapeKey path
  redis.lTrim scrapeKey
  redis.expire scrapeKey
  let recent ← redis.lRange scrapeKey
  if recent.length < 3 then none
  else averageJaccard (tokenisePath path) (recent.dropLast.map tokenisePath)

def scraping (redis : Redis) (clientId path : String) : Bool :=
  (scrapeSimilarity redis clientId path).any scrapeSimilarityThreshold.lt &&
    (redis.set ("abuse:penalty:" ++ clientId ++ ":*")).isSome

def reducedLimit (originalLimit : Number) : Number :=
  (Number.finite 1).max (originalLimit.mul scrapePenaltyFactor).floor

def checkScrapingPattern (redis : Redis) (clientId path : String) (originalLimit : Number) : Number :=
  if scraping redis clientId path then reducedLimit originalLimit else originalLimit

def checkPaginationPattern (redis : Redis) (clientId endpoint : String) (req : Request) : Bool :=
  if (req.query "page").isNone && (req.query "offset").isNone && (req.query "cursor").isNone then false
  else
    let paginateKey := "abuse:paginate:" ++ clientId ++ ":" ++ endpoint
    match redis.incr paginateKey with
    | none => false
    | some count =>
      if count = 1 && (redis.expire paginateKey).isNone then false
      else count > paginationThreshold && (redis.set ("abuse:penalty:" ++ clientId ++ ":" ++ endpoint)).isSome

/-- Active penalty. -/
def RateContext.penalise (redis : Redis) (req : Request) (rateContext : RateContext) : RateContext :=
  if hasPenalty redis rateContext.clientId req.path then { rateContext with rateLimit := some penaltyRate }
  else rateContext

/-- Scraping detection: without an override the limit is taken for 60. -/
def RateContext.scrape (redis : Redis) (req : Request) (rateContext : RateContext) : RateContext :=
  let originalLimit := rateContext.rateLimit.getD (.finite 60)
  let effectiveLimit := checkScrapingPattern redis rateContext.clientId req.path originalLimit
  if effectiveLimit.lt originalLimit then { rateContext with rateLimit := some effectiveLimit } else rateContext

/-- Aggressive pagination. -/
def RateContext.paginate (redis : Redis) (req : Request) (rateContext : RateContext) : RateContext :=
  if checkPaginationPattern redis rateContext.clientId req.path req then
    { rateContext with rateLimit := some penaltyRate }
  else rateContext

/-- Nothing stands for the answer 403. -/
def abuseDetector (redis : Option Redis) (req : Request) (rateContext : RateContext) : Option RateContext :=
  match redis with
  | none => some rateContext
  | some redis =>
    if isBlocked redis (ApiKeys.getClientIp req.toRequest) then none
    else some (((rateContext.penalise redis req).scrape redis req).paginate redis req)

inductive Geo where
  | block
  | pass
  | multiply (multiplier : Number)

/-- Without an override the multiplier is kept beside the context, where nothing reads it. -/
def geoIpRateLimiter (geo : Geo) (rateContext : RateContext) : Option RateContext :=
  match geo with
  | .block => none
  | .pass => some rateContext
  | .multiply multiplier =>
    match rateContext.rateLimit with
    | some rateLimit => some { rateContext with rateLimit := some (rateLimit.mul multiplier).round }
    | none => some { rateContext with geoMultiplier := some multiplier }

inductive Middleware where
  | auditLogger
  | apiKeyAuthenticator
  | geoIpRateLimiter
  | concurrentRequestLimiter
  | tokenBucketMiddleware
  | graphqlComplexityLimiter
  | abuseDetector
  | rateLimitHeaderWriter
  deriving DecidableEq

/-- The order in which `createApi` registers them. -/
def createApi : List Middleware :=
  [.auditLogger, .apiKeyAuthenticator, .geoIpRateLimiter, .concurrentRequestLimiter, .tokenBucketMiddleware,
    .graphqlComplexityLimiter, .abuseDetector, .rateLimitHeaderWriter]

/-- What the middlewares find outside the request. `throttle` is the answer of the bucket,
in Redis or in the process. -/
structure Environment where
  authenticated : Option RateContext
  geo : Geo
  concurrent : Bool
  throttle : Limits → Bool
  complexity : Bool
  redis : Option Redis

/-- `enforced` are the limits the bucket was asked with. -/
structure State where
  rateContext : RateContext
  enforced : Option Limits

/-- Nothing stands for a request that is answered and goes no further. -/
def Middleware.handle (env : Environment) (req : Request) (s : State) : Middleware → Option State
  | auditLogger | rateLimitHeaderWriter => some s
  | apiKeyAuthenticator => env.authenticated.map fun rateContext => { s with rateContext }
  | geoIpRateLimiter =>
    (AbuseDetector.geoIpRateLimiter env.geo s.rateContext).map fun rateContext => { s with rateContext }
  | concurrentRequestLimiter => if env.concurrent then some s else none
  | tokenBucketMiddleware =>
    let limits := req.limits s.rateContext
    if env.throttle limits then some { s with enforced := some limits } else none
  | graphqlComplexityLimiter => if env.complexity then some s else none
  | abuseDetector =>
    (AbuseDetector.abuseDetector env.redis req s.rateContext).map fun rateContext => { s with rateContext }

def handle (env : Environment) (req : Request) (stack : List Middleware) (s : State) : Option State :=
  stack.foldlM (Middleware.handle env req) s

/-- A request without a context yet. -/
def arrived : State := ⟨⟨"unknown", .unauthenticated, none, none⟩, none⟩

/-- The state in which the middleware gets the request. -/
def reaches (env : Environment) (req : Request) (middleware : Middleware) : Option State :=
  handle env req (createApi.takeWhile (· ≠ middleware)) arrived

/-- Where abuseDetector lets the request go on, its limit is no higher than before, and it
is the one the request has been held to. -/
def PenaltyEnforced (env : Environment) (req : Request) (s : State) : Prop :=
  ∀ rateContext, abuseDetector env.redis req s.rateContext = some rateContext →
    (req.limits rateContext).rpm.le (req.limits s.rateContext).rpm = true ∧
      s.enforced = some (req.limits rateContext)

/-- The penalties that set in leave the request the rate it has. -/
def KeepsRate (redis : Redis) (req : Request) (rateContext : RateContext) : Prop :=
  let clientId := rateContext.clientId
  let rpm := (req.limits rateContext).rpm
  if isBlocked redis (ApiKeys.getClientIp req.toRequest) then True
  else if checkPaginationPattern redis clientId req.path req then rpm = penaltyRate
  else if scraping redis clientId req.path then
    if hasPenalty redis clientId req.path then rpm = .finite 1
    else ∃ rateLimit ∈ rateContext.rateLimit, ∀ x : ℚ, rateLimit = .finite x → x ≤ 1
  else hasPenalty redis clientId req.path → rpm = penaltyRate


theorem scrapePenaltyFactor_eq : scrapePenaltyFactor = .finite (3602879701896397 / 36028797018963968) := by
  rw [scrapePenaltyFactor, @roundRat_of_near _ 7205759403792794 (-4)]
  all_goals norm_num

theorem reducedLimit_lt {x : ℚ} (above : 1 < x) (inRange : (Number.finite x).InRange) :
    ∃ reduced, reducedLimit (.finite x) = .finite reduced ∧ 1 ≤ reduced ∧ reduced < x := by
  have high : x ≤ 2 ^ 1024 := (le_abs_self x).trans inRange
  have tiny : (2 : ℚ) ^ (-1022 : ℤ) ≤ 1 / 100 := normal_small.trans (by norm_num)
  obtain ⟨rounded, rounds, bound⟩ := roundRat_le (x := x * (3602879701896397 / 36028797018963968))
    (tiny.trans (by linarith)) (lt_of_lt_of_le (by linarith) high)
  have lower : (⌊rounded⌋ : ℚ) < x := lt_of_le_of_lt (Int.floor_le rounded) (by linarith)
  rw [reducedLimit, scrapePenaltyFactor_eq, Number.mul, rounds, Number.floor, Number.max, if_neg (by simp)]
  split
  · rename_i larger
    exact ⟨_, rfl, of_decide_eq_true larger, lower⟩
  · exact ⟨1, rfl, le_rfl, above⟩

theorem reducedLimit_of_le {x : ℚ} (below : x ≤ 1) : (reducedLimit (.finite x)).lt (.finite x) = false := by
  have atLeast (y : Number) : (Number.max (.finite 1) y).lt (.finite x) = false := by
    cases y with
    | nan => rfl
    | infinite negative =>
      cases negative
      · rfl
      · simp [Number.max, Number.le, Number.lt, below]
    | finite y =>
      by_cases larger : 1 ≤ y
      · simp [Number.max, Number.le, Number.lt, larger, below.trans larger]
      · simp [Number.max, Number.le, Number.lt, larger, below]
  exact atLeast _

theorem rpm_of_counts (endpointGroup : EndpointGroup) (tier : Tier) {rate : Number}
    (counts : (rate.isFinite && (Number.finite 0).lt rate) = true) :
    (getTierLimits endpointGroup tier (some rate)).rpm = rate := by
  rw [getTierLimits, Option.filter_some, if_pos counts, Option.getD_some]

theorem rpm_of_ignored (endpointGroup : EndpointGroup) (tier : Tier) {rate : Number}
    (ignored : (rate.isFinite && (Number.finite 0).lt rate) = false) :
    (getTierLimits endpointGroup tier (some rate)).rpm = groupTierLimits endpointGroup tier := by
  rw [getTierLimits, Option.filter_some, if_neg (Bool.eq_false_iff.mp ignored), Option.getD_none]

theorem rpm_of_positive (endpointGroup : EndpointGroup) (tier : Tier) {rate : ℚ} (positive : 0 < rate) :
    (getTierLimits endpointGroup tier (some (.finite rate))).rpm = .finite rate := by
  apply rpm_of_counts
  simp [Number.isFinite, Number.lt, Number.le, positive, positive.le]

theorem groupTierLimits_cases (endpointGroup : EndpointGroup) (tier : Tier) :
    groupTierLimits endpointGroup tier = .infinite false ∨
      ∃ rate : ℚ, groupTierLimits endpointGroup tier = .finite rate ∧ 1 < rate ∧ rate ≠ 6 := by
  cases tier with
  | enterprise => exact .inl rfl
  | _ =>
    right
    cases endpointGroup <;> exact ⟨_, rfl, by norm_num, by norm_num⟩

/-- No rate is NaN. -/
theorem rpm_le_self (endpointGroup : EndpointGroup) (tier : Tier) (overrideRpm : Option Number) :
    (getTierLimits endpointGroup tier overrideRpm).rpm.le (getTierLimits endpointGroup tier overrideRpm).rpm = true := by
  have table : (groupTierLimits endpointGroup tier).le (groupTierLimits endpointGroup tier) = true := by
    rcases groupTierLimits_cases endpointGroup tier with infinite | ⟨rate, finite, -, -⟩
    · rw [infinite]
      rfl
    · simp [finite, Number.le]
  cases overrideRpm with
  | none => exact table
  | some rate =>
    cases counts : rate.isFinite && (Number.finite 0).lt rate with
    | false => rwa [rpm_of_ignored _ _ counts]
    | true =>
      rw [rpm_of_counts _ _ counts]
      cases rate with
      | finite x => exact decide_eq_true le_rfl
      | nan => contradiction
      | infinite negative => contradiction

/-- The bucket is asked before abuseDetector, with the same context. -/
theorem enforced_of_reaches {env : Environment} {req : Request} {s : State}
    (reached : reaches env req .abuseDetector = some s) : s.enforced = some (req.limits s.rateContext) := by
  have stack : createApi.takeWhile (· ≠ .abuseDetector) =
      [.auditLogger, .apiKeyAuthenticator, .geoIpRateLimiter, .concurrentRequestLimiter] ++
        [.tokenBucketMiddleware, .graphqlComplexityLimiter] := by decide
  rw [reaches, handle, stack, List.foldlM_append] at reached
  obtain ⟨before, -, reached⟩ := Option.bind_eq_some_iff.mp reached
  simp only [List.foldlM_cons, List.foldlM_nil, Middleware.handle] at reached
  split at reached
  · split at reached
    · cases reached
      rfl
    · contradiction
  · contradiction

/-- The limits of a context are doubles. -/
def RateContext.Doubles (rateContext : RateContext) : Prop := ∀ rateLimit ∈ rateContext.rateLimit, rateLimit.InRange

theorem doubles_geo {geo : Geo} {before after : RateContext}
    (doubles : before.Doubles) (goes : geoIpRateLimiter geo before = some after) : after.Doubles := by
  unfold geoIpRateLimiter at goes
  split at goes
  · contradiction
  · cases goes
    exact doubles
  · split at goes
    · cases goes
      intro rateLimit is
      cases is
      exact inRange_round (inRange_mul _ _)
    · rename_i none
      cases goes
      intro rateLimit is
      rw [none] at is
      contradiction

theorem Middleware.doubles_handle {env : Environment} {req : Request} {s t : State} {middleware : Middleware}
    (authenticated : ∀ rateContext ∈ env.authenticated, rateContext.Doubles) (other : middleware ≠ .abuseDetector)
    (doubles : s.rateContext.Doubles) (goes : middleware.handle env req s = some t) : t.rateContext.Doubles := by
  cases middleware with
  | auditLogger | rateLimitHeaderWriter =>
    cases goes
    exact doubles
  | apiKeyAuthenticator =>
    obtain ⟨rateContext, resolved, rfl⟩ := Option.map_eq_some_iff.mp goes
    exact authenticated rateContext resolved
  | geoIpRateLimiter =>
    obtain ⟨rateContext, resolved, rfl⟩ := Option.map_eq_some_iff.mp goes
    exact doubles_geo doubles resolved
  | concurrentRequestLimiter | graphqlComplexityLimiter =>
    obtain ⟨-, goes⟩ := Option.ite_none_right_eq_some.mp goes
    cases goes
    exact doubles
  | tokenBucketMiddleware =>
    obtain ⟨-, goes⟩ := Option.ite_none_right_eq_some.mp goes
    cases goes
    exact doubles
  | abuseDetector => contradiction

theorem doubles_handle {env : Environment} {req : Request} {stack : List Middleware} {s t : State}
    (authenticated : ∀ rateContext ∈ env.authenticated, rateContext.Doubles)
    (others : ∀ middleware ∈ stack, middleware ≠ .abuseDetector) (doubles : s.rateContext.Doubles)
    (goes : handle env req stack s = some t) : t.rateContext.Doubles := by
  induction stack generalizing s with
  | nil =>
    cases goes
    exact doubles
  | cons middleware stack ih =>
    obtain ⟨next, first, rest⟩ := Option.bind_eq_some_iff.mp goes
    exact ih (fun other member => others other (List.mem_cons_of_mem _ member))
      (Middleware.doubles_handle authenticated (others _ List.mem_cons_self) doubles first) rest

theorem doubles_of_reaches {env : Environment} {req : Request} {s : State}
    (authenticated : ∀ rateContext ∈ env.authenticated, rateContext.Doubles)
    (reached : reaches env req .abuseDetector = some s) : s.rateContext.Doubles := by
  refine doubles_handle authenticated (fun middleware member => ?_) (fun _ none => absurd none (by simp [arrived]))
    reached
  have differs := List.mem_takeWhile_imp (p := fun other => decide (other ≠ Middleware.abuseDetector)) member
  exact of_decide_eq_true differs

/-- Where a scraped limit does not fall, it is no rate above 1. -/
theorem reducedLimit_lt_iff {rateLimit : Number} (double : rateLimit.InRange) :
    (reducedLimit rateLimit).lt rateLimit = true ↔ ∃ x : ℚ, rateLimit = .finite x ∧ 1 < x := by
  cases rateLimit with
  | finite x =>
    constructor
    · intro falls
      refine ⟨x, rfl, ?_⟩
      by_contra low
      rw [reducedLimit_of_le (not_lt.mp low)] at falls
      exact absurd falls (by decide)
    · rintro ⟨y, same, above⟩
      cases same
      obtain ⟨reduced, reduces, -, below⟩ := reducedLimit_lt above double
      rw [reduces]
      simp [Number.lt, Number.le, below, below.le]
  | nan =>
    constructor
    · exact fun falls => absurd falls (by decide)
    · rintro ⟨_, is, _⟩
      cases is
  | infinite negative =>
    constructor
    · intro falls
      have product : (Number.infinite negative).mul (.finite (3602879701896397 / 36028797018963968)) = .infinite negative := by
        norm_num [Number.mul, Number.negative]
      rw [reducedLimit, scrapePenaltyFactor_eq, product] at falls
      cases negative
      · exact absurd falls (by decide)
      · exact absurd falls (by decide)
    · rintro ⟨_, is, _⟩
      cases is

theorem limits_eq_iff (req : Request) (rateContext : RateContext) (rateLimit : Option Number) :
    req.limits { rateContext with rateLimit } = req.limits rateContext ↔
      (req.limits { rateContext with rateLimit }).rpm = (req.limits rateContext).rpm := by
  constructor
  · intro same
    rw [same]
  · intro same
    exact congrArg (Limits.mk · (tierBurstDefaults rateContext.tier)) same

theorem reducedLimit_sixty : reducedLimit (.finite 60) = .finite 6 := by
  have product : roundRat (60 * (3602879701896397 / 36028797018963968)) = .finite 6 := by
    rw [@roundRat_of_near _ 6755399441055744 2]
    all_goals norm_num
  rw [reducedLimit, scrapePenaltyFactor_eq, Number.mul, product]
  decide

/-- A limit that scraping brings down is not the rate the request had. -/
theorem scraped_rpm_ne (req : Request) {rateContext : RateContext} (doubles : rateContext.Doubles)
    (falls : (reducedLimit (rateContext.rateLimit.getD (.finite 60))).lt
      (rateContext.rateLimit.getD (.finite 60)) = true) :
    (req.limits { rateContext with rateLimit := some (reducedLimit (rateContext.rateLimit.getD (.finite 60))) }).rpm ≠
      (req.limits rateContext).rpm := by
  cases given : rateContext.rateLimit with
  | none =>
    simp only [Option.getD_none, reducedLimit_sixty, Request.limits, given]
    rw [rpm_of_positive _ _ (by decide)]
    rcases groupTierLimits_cases (Usage.resolveEndpointGroup req.path) rateContext.tier with
      infinite | ⟨rate, finite, -, other⟩
    · simp [getTierLimits, infinite]
    · simp [getTierLimits, finite, other.symm]
  | some rateLimit =>
    rw [given] at falls
    obtain ⟨x, rfl, above⟩ := (reducedLimit_lt_iff (doubles _ given)).mp falls
    obtain ⟨reduced, reduces, least, below⟩ := reducedLimit_lt above (doubles _ given)
    simp only [Option.getD_some, reduces, Request.limits, given]
    rw [rpm_of_positive _ _ (by linarith), rpm_of_positive _ _ (by linarith)]
    simp [below.ne]

theorem reducedLimit_penalty : reducedLimit penaltyRate = .finite 1 := by
  have product : roundRat (5 * (3602879701896397 / 36028797018963968)) = .finite (1 / 2) := by
    rw [@roundRat_of_near _ 4503599627370496 (-1)]
    all_goals norm_num
  have below : ⌊(1 / 2 : ℚ)⌋ = 0 := by norm_num
  rw [reducedLimit, penaltyRate, scrapePenaltyFactor_eq, Number.mul, product, Number.floor, below]
  decide

/-- The limit that a request leaves abuseDetector with: of its penalties the last one stays. -/
def limitAfter (redis : Redis) (req : Request) (rateContext : RateContext) : Option Number :=
  let clientId := rateContext.clientId
  if checkPaginationPattern redis clientId req.path req then some penaltyRate
  else if scraping redis clientId req.path then
    if hasPenalty redis clientId req.path then some (.finite 1)
    else
      let originalLimit := rateContext.rateLimit.getD (.finite 60)
      if (reducedLimit originalLimit).lt originalLimit then some (reducedLimit originalLimit)
      else rateContext.rateLimit
  else if hasPenalty redis clientId req.path then some penaltyRate
  else rateContext.rateLimit

theorem paginate_eq (redis : Redis) (req : Request) (rateContext : RateContext) :
    rateContext.paginate redis req = { rateContext with rateLimit :=
      (if checkPaginationPattern redis rateContext.clientId req.path req then some penaltyRate
        else rateContext.rateLimit) } := by
  unfold RateContext.paginate
  split <;> rfl

theorem penalties_eq (redis : Redis) (req : Request) (rateContext : RateContext) :
    ((rateContext.penalise redis req).scrape redis req).paginate redis req =
      { rateContext with rateLimit := limitAfter redis req rateContext } := by
  have falls : (Number.finite 1).lt penaltyRate = true := by decide
  have stays (rateLimit : Number) : rateLimit.lt rateLimit = false := by simp [Number.lt]
  have scraped : (rateContext.penalise redis req).scrape redis req = { rateContext with rateLimit :=
      (if scraping redis rateContext.clientId req.path then
        if hasPenalty redis rateContext.clientId req.path then some (.finite 1)
        else if (reducedLimit (rateContext.rateLimit.getD (.finite 60))).lt
            (rateContext.rateLimit.getD (.finite 60)) then
          some (reducedLimit (rateContext.rateLimit.getD (.finite 60)))
        else rateContext.rateLimit
      else if hasPenalty redis rateContext.clientId req.path then some penaltyRate else rateContext.rateLimit) } := by
    cases penalised : hasPenalty redis rateContext.clientId req.path with
    | true =>
      simp only [RateContext.penalise, penalised, if_true, RateContext.scrape, checkScrapingPattern, Option.getD_some,
        reducedLimit_penalty]
      cases scraping redis rateContext.clientId req.path with
      | true => simp only [if_true, falls]
      | false => simp only [Bool.false_eq_true, if_false, stays]
    | false =>
      simp only [RateContext.penalise, penalised, Bool.false_eq_true, if_false, RateContext.scrape,
        checkScrapingPattern]
      split
      · split <;> rfl
      · simp only [stays, Bool.false_eq_true, if_false]
  rw [scraped, paginate_eq]
  rfl

theorem keepsRate_iff {redis : Redis} {req : Request} {rateContext : RateContext} (doubles : rateContext.Doubles)
    (unblocked : ¬isBlocked redis (ApiKeys.getClientIp req.toRequest) = true) :
    (req.limits { rateContext with rateLimit := limitAfter redis req rateContext }).rpm =
        (req.limits rateContext).rpm ↔ KeepsRate redis req rateContext := by
  have set (rate : ℚ) (positive : 0 < rate) :
      (req.limits { rateContext with rateLimit := some (.finite rate) }).rpm = .finite rate :=
    rpm_of_positive _ _ positive
  have five : (req.limits { rateContext with rateLimit := some penaltyRate }).rpm = penaltyRate := set 5 (by decide)
  unfold KeepsRate limitAfter
  dsimp only
  rw [if_neg unblocked]
  cases checkPaginationPattern redis rateContext.clientId req.path req with
  | true => rw [if_pos rfl, if_pos rfl, five, eq_comm]
  | false =>
    rw [if_neg Bool.false_ne_true, if_neg Bool.false_ne_true]
    cases scraping redis rateContext.clientId req.path with
    | true =>
      rw [if_pos rfl, if_pos rfl]
      cases hasPenalty redis rateContext.clientId req.path with
      | true => rw [if_pos rfl, if_pos rfl, set 1 (by decide), eq_comm]
      | false =>
        rw [if_neg Bool.false_ne_true, if_neg Bool.false_ne_true]
        split
        · rename_i falls
          refine ⟨fun same => absurd same (scraped_rpm_ne req doubles falls), ?_⟩
          rintro ⟨rateLimit, given, low⟩
          rw [given, Option.getD_some] at falls
          obtain ⟨x, finite, above⟩ := (reducedLimit_lt_iff (doubles _ given)).mp falls
          exact absurd (low x finite) (not_le.mpr above)
        · rename_i stays
          refine ⟨fun _ => ?_, fun _ => rfl⟩
          cases given : rateContext.rateLimit with
          | none =>
            rw [given] at stays
            rw [Option.getD_none, reducedLimit_sixty] at stays
            exact absurd rfl stays
          | some rateLimit =>
            refine ⟨rateLimit, rfl, fun x finite => ?_⟩
            rw [given, Option.getD_some] at stays
            by_contra above
            exact stays ((reducedLimit_lt_iff (doubles _ given)).mpr ⟨x, finite, not_le.mp above⟩)
    | false =>
      rw [if_neg Bool.false_ne_true, if_neg Bool.false_ne_true]
      cases hasPenalty redis rateContext.clientId req.path with
      | true =>
        rw [if_pos rfl, five, eq_comm]
        exact ⟨fun same _ => same, fun same => same rfl⟩
      | false => simp

theorem penaltyEnforced_iff {env : Environment} {req : Request} {s : State}
    (authenticated : ∀ rateContext ∈ env.authenticated, rateContext.Doubles)
    (reached : reaches env req .abuseDetector = some s) :
    PenaltyEnforced env req s ↔ ∀ redis ∈ env.redis, KeepsRate redis req s.rateContext := by
  have doubles := doubles_of_reaches authenticated reached
  have enforced := enforced_of_reaches reached
  unfold PenaltyEnforced
  cases found : env.redis with
  | none =>
    refine ⟨fun _ redis is => by contradiction, ?_⟩
    rintro - rateContext goes
    cases goes
    exact ⟨rpm_le_self _ _ _, enforced⟩
  | some redis =>
    have only (P : Redis → Prop) : (∀ redis' ∈ some redis, P redis') ↔ P redis := by simp
    rw [only]
    by_cases blocked : isBlocked redis (ApiKeys.getClientIp req.toRequest) = true
    · have answered : abuseDetector (some redis) req s.rateContext = none := if_pos blocked
      simp [answered, KeepsRate, blocked]
    · have goes : abuseDetector (some redis) req s.rateContext =
          some { s.rateContext with rateLimit := limitAfter redis req s.rateContext } := by
        rw [abuseDetector, if_neg blocked, penalties_eq]
      rw [← keepsRate_iff doubles blocked, ← limits_eq_iff, enforced]
      constructor
      · intro tightens
        exact (Option.some_inj.mp (tightens _ goes).2).symm
      · intro same after is
        rw [goes] at is
        cases is
        rw [same]
        exact ⟨rpm_le_self _ _ _, rfl⟩

/-- A Redis that holds the key of a penalty and nothing else. -/
def holding (penaltyKey : String) : Redis where
  get key := some (if key = penaltyKey then some "1" else none)
  rPush _ _ := some ()
  lTrim _ := some ()
  expire _ := some ()
  lRange key := some [key]
  incr _ := some 1
  set _ := some ()

def penalised (rateLimit : Option Number) : Environment where
  authenticated := some ⟨"5f1c0a", .unauthenticated, rateLimit, none⟩
  geo := .pass
  concurrent := true
  throttle _ := true
  complexity := true
  redis := some (holding "abuse:penalty:5f1c0a:/ws")

def upgrade : Request := ⟨⟨none, none, some "203.0.113.7", "/ws"⟩, fun _ => none⟩

def admitted (rateLimit : Option Number) : State :=
  ⟨⟨"5f1c0a", .unauthenticated, rateLimit, none⟩,
    some (upgrade.limits ⟨"5f1c0a", .unauthenticated, rateLimit, none⟩)⟩

/-- At the key's own rate of 5 the penalty changes nothing. -/
theorem penaltyEnforced_iff_at_five :
    PenaltyEnforced (penalised (some (.finite 5))) upgrade (admitted (some (.finite 5))) ↔
      ∀ redis ∈ (penalised (some (.finite 5))).redis,
        KeepsRate redis upgrade (admitted (some (.finite 5))).rateContext := by
  refine penaltyEnforced_iff (fun rateContext is rateLimit given => ?_) rfl
  cases is
  cases given
  change |(5 : ℚ)| ≤ 2 ^ 1024
  exact le_trans (by norm_num) (pow_le_pow_right₀ one_le_two (show 3 ≤ 1024 by decide))

/-- A websocket client without a key may send 3 requests a minute, and 5 under a penalty; the bucket is
asked with 3. -/
theorem penalty_loosens : ∃ env req s, (∀ rateContext ∈ env.authenticated, rateContext.Doubles) ∧
    reaches env req .abuseDetector = some s ∧
    s.enforced = some ⟨.finite 3, 10⟩ ∧
    (abuseDetector env.redis req s.rateContext).map (fun rateContext => (req.limits rateContext).rpm) =
      some (.finite 5) ∧
    ¬PenaltyEnforced env req s := by
  have enforced : (admitted none).enforced = some ⟨.finite 3, 10⟩ := by decide
  have detected : (abuseDetector (penalised none).redis upgrade (admitted none).rateContext).map
      (fun rateContext => (upgrade.limits rateContext).rpm) = some (.finite 5) := by decide
  refine ⟨penalised none, upgrade, admitted none, fun _ is _ given => ?_, rfl, enforced, detected, ?_⟩
  · cases is
    contradiction
  · intro tightens
    obtain ⟨rateContext, goes, rate⟩ := Option.map_eq_some_iff.mp detected
    have same := (tightens rateContext goes).2
    rw [enforced, Option.some.injEq] at same
    rw [← same] at rate
    exact absurd rate (by decide)

end Octraban.AbuseDetector
