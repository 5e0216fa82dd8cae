import Octraban.Api.TokenBucket
import Octraban.Core.JavaScript

/-! The tiers of middleware/tokenBucket.ts, the groups of endpoints and the bucket that a request
of a client is counted in. Tokens are exact; the limits are computed in doubles. -/
namespace Octraban.Tiers

open TokenBucket RateLimit

inductive RateLimitTier where
  | unauthenticated | free | developer | pro | enterprise
  deriving DecidableEq

def RateLimitTier.text : RateLimitTier → String
  | unauthenticated => "unauthenticated"
  | free => "free"
  | developer => "developer"
  | pro => "pro"
  | enterprise => "enterprise"

structure TierLimits where
  perMinute : Nat
  burst : Nat

def tierLimits : RateLimitTier → TierLimits
  | .unauthenticated => ⟨60, 10⟩
  | .free => ⟨1000, 50⟩
  | .developer => ⟨1000, 50⟩
  | .pro => ⟨10000, 200⟩
  | .enterprise => ⟨60000, 500⟩

/-- The double nearest to an exact result; nothing here overflows. -/
def double (x : ℚ) : ℚ :=
  match JavaScript.roundRat x with
  | .finite y => y
  | _ => x

/-- `/^(a|b)/` and `/^a.*b/` -/
inductive Pattern where
  | starts (parts : List String)
  | startsThen (part later : String)
  deriving DecidableEq

def lineTerminators : List Char := ['\n', '\r', '\u2028', '\u2029']

def Pattern.test : Pattern → String → Bool
  | starts parts, text => parts.any fun part => part.toList.isPrefixOf text.toList
  | startsThen part later, text =>
    part.toList.isPrefixOf text.toList &&
      decide (later.toList <:+: (text.toList.drop part.length).takeWhile fun c => !lineTerminators.contains c)

structure EndpointGroup where
  pattern : Pattern
  name : String
  multiplier : ℚ

def endpointGroups : List EndpointGroup :=
  [⟨.starts ["/api/v1/events"], "events", 1⟩,
    ⟨.starts ["/api/v1/search", "/api/v1/nft/search"], "search", 1 / 2⟩,
    ⟨.startsThen "/api/v1/contracts" "POST", "contracts", double (17 / 100)⟩,
    ⟨.starts ["/api/v1/simulate"], "simulate", double (8 / 100)⟩,
    ⟨.starts ["/ws"], "websocket", double (5 / 100)⟩]

/-- The first group whose pattern fits. -/
def endpointGroup (method path : String) : Option EndpointGroup :=
  endpointGroups.find? fun group => group.pattern.test (path ++ method) || group.pattern.test path

def groupMultiplier (group : Option EndpointGroup) : ℚ := group.elim 1 EndpointGroup.multiplier

def getEndpointMultiplier (method path : String) : ℚ := groupMultiplier (endpointGroup method path)

/-- The scaled limit of a minute; an override of 0 counts as none. -/
def scaledLimit (tier : RateLimitTier) (overridePerMinute : Option ℚ) (multiplier : ℚ) : ℤ :=
  match overridePerMinute.filter (· ≠ 0) with
  | some override => ⌈double (override * multiplier)⌉
  | none => ⌈double ((tierLimits tier).perMinute * multiplier)⌉

/-- `answered` says whether there is a Redis client and its script runs. -/
structure Route where
  method : String
  path : String
  answered : Bool

structure Request where
  route : Route
  now : Int

structure Stores where
  redis : String → Option Hash
  memBuckets : String → Option MemBucket

structure TokenBucketResult where
  allowed : Bool
  remaining : Int
  limit : Int
  resetAt : Int
  tier : RateLimitTier

def redisKey (clientKey : String) (tier : RateLimitTier) (path : String) : String :=
  "tb:" ++ tier.text ++ ":" ++ clientKey ++ ":" ++ path.map fun c => if c = '/' then '_' else c

def checkTokenBucket (stores : Stores) (clientKey : String) (tier : RateLimitTier) (overridePerMinute : Option ℚ)
    (request : Request) : Stores × TokenBucketResult :=
  let baseLimits := tierLimits tier
  let multiplier := getEndpointMultiplier request.route.method request.route.path
  let limit := scaledLimit tier overridePerMinute multiplier
  let capacity : ℚ := limit
  let refillRate := capacity / 60
  let burst := min capacity (if (overridePerMinute.filter (· ≠ 0)).isSome then capacity else baseLimits.burst)
  let effectiveCapacity := max capacity burst
  let key := redisKey clientKey tier request.route.path
  if request.route.answered then
    let (redis, reply) := tokenBucketLua stores.redis key effectiveCapacity refillRate request.now
    let (allowed, remaining, resetAt) := readReply reply
    (⟨redis, stores.memBuckets⟩, ⟨allowed, remaining, limit, resetAt, tier⟩)
  else
    let (memBuckets, allowed, remaining, resetAt) :=
      checkMemoryBucket stores.memBuckets key effectiveCapacity refillRate request.now
    (⟨stores.redis, memBuckets⟩, ⟨allowed, remaining, limit, resetAt, tier⟩)

/-- The requests of one client, each with the decision about it. -/
def handle (clientKey : String) (tier : RateLimitTier) (overridePerMinute : Option ℚ) (stores : Stores) :
    List Request → List (Request × Bool)
  | [] => []
  | request :: rest =>
    let (stores, result) := checkTokenBucket stores clientKey tier overridePerMinute request
    (request, result.allowed) :: handle clientKey tier overridePerMinute stores rest

/-- The number of requests allowed from `s` to `t`. -/
def allowedWithin (s t : Int) (decisions : List (Request × Bool)) : Nat :=
  decisions.countP fun decision => s ≤ decision.1.now ∧ decision.1.now ≤ t ∧ decision.2

def Stores.empty : Stores := ⟨fun _ => none, fun _ => none⟩

/-- The documented bound, for every sequence of requests of the group along the given routes. -/
def BurstsKept (clientKey : String) (tier : RateLimitTier) (overridePerMinute : Option ℚ)
    (group : Option EndpointGroup) (routes : Set Route) : Prop :=
  ∀ requests : List Request,
    (∀ request ∈ requests, request.route ∈ routes ∧ endpointGroup request.route.method request.route.path = group) →
    requests.Pairwise (fun earlier later => earlier.now ≤ later.now) → ∀ s t : Int, s ≤ t →
      (allowedWithin s t (handle clientKey tier overridePerMinute Stores.empty requests) : ℚ) ≤
        (tierLimits tier).burst +
          ((t : ℚ) - s) / 1000 * (scaledLimit tier overridePerMinute (groupMultiplier group) / 60) + 1

/-- The store and the key a request is counted under. -/
def bucketOf (clientKey : String) (tier : RateLimitTier) (route : Route) : Bool × String :=
  (route.answered, redisKey clientKey tier route.path)

/-- The limit is not negative; and it is 0, or all the routes of the group that are used end in
one bucket, whose limit is within the burst. -/
def Confined (clientKey : String) (tier : RateLimitTier) (overridePerMinute : Option ℚ)
    (group : Option EndpointGroup) (routes : Set Route) : Prop :=
  let limit := scaledLimit tier overridePerMinute (groupMultiplier group)
  0 ≤ limit ∧ (limit = 0 ∨
    ∀ route ∈ routes, endpointGroup route.method route.path = group →
      limit ≤ (tierLimits tier).burst + 1 ∧
        ∀ other ∈ routes, endpointGroup other.method other.path = group →
          bucketOf clientKey tier other = bucketOf clientKey tier route)

def Stores.bucket (stores : Stores) (place : Bool × String) : Option (Bucket ℚ) :=
  if place.1 then (stores.redis place.2).map fun data => data.entry.bucket
  else (stores.memBuckets place.2).map MemBucket.bucket

variable {clientKey : String} {tier : RateLimitTier} {overridePerMinute : Option ℚ} {group : Option EndpointGroup}
  {routes : Set Route} {stores : Stores} {request : Request} {requests : List Request} {place : Bool × String}
  {s t : Int}

/-- The burst never changes the capacity. -/
theorem max_min_capacity (capacity other : ℚ) : max capacity (min capacity other) = capacity :=
  max_eq_left (min_le_left _ _)

/-- One request takes from its own bucket and leaves the others as they are. -/
theorem bucket_checkTokenBucket (clientKey : String) {limit : ℤ} (scaled : scaledLimit tier overridePerMinute
      (getEndpointMultiplier request.route.method request.route.path) = limit) (stores : Stores) :
    (checkTokenBucket stores clientKey tier overridePerMinute request).1.bucket (bucketOf clientKey tier request.route) =
        some (Bucket.request (limit : ℚ) (limit / 60 / 1000)
          (stores.bucket (bucketOf clientKey tier request.route)) request.now).1 ∧
      (checkTokenBucket stores clientKey tier overridePerMinute request).2.allowed =
        (Bucket.request (limit : ℚ) (limit / 60 / 1000)
          (stores.bucket (bucketOf clientKey tier request.route)) request.now).2 ∧
      ∀ place ≠ bucketOf clientKey tier request.route,
        (checkTokenBucket stores clientKey tier overridePerMinute request).1.bucket place = stores.bucket place := by
  cases answered : request.route.answered with
  | true =>
    simp only [checkTokenBucket, scaled, max_min_capacity, answered, bucketOf, Stores.bucket, if_true]
    set key := redisKey clientKey tier request.route.path
    let entries : String → Option MemBucket := fun other => (stores.redis other).map Hash.entry
    have memory := memory_eq_request entries key (limit : ℚ) (limit / 60) request.now
    have same : (stores.redis key).map Hash.entry = entries key := rfl
    obtain ⟨stored, replied⟩ := lua_eq_memory (limit : ℚ) (limit / 60) request.now same
    rw [← stored, ← replied, ← same, Option.map_map] at memory
    refine ⟨?_, ?_, fun place other => ?_⟩
    · rw [Option.map_map] at memory
      exact memory.1
    · rw [Option.map_map] at memory
      exact memory.2
    · obtain ⟨redis, name⟩ := place
      cases redis with
      | false => rfl
      | true =>
        have apart : name ≠ key := fun same => other (by rw [same])
        simp only [if_true]
        rw [tokenBucketLua]
        exact congrArg _ (Function.update_of_ne apart _ _)
  | false =>
    simp only [checkTokenBucket, scaled, max_min_capacity, answered, bucketOf, Stores.bucket, Bool.false_eq_true, if_false]
    set key := redisKey clientKey tier request.route.path
    have memory := memory_eq_request stores.memBuckets key (limit : ℚ) (limit / 60) request.now
    refine ⟨memory.1, memory.2, fun place other => ?_⟩
    obtain ⟨redis, name⟩ := place
    cases redis with
    | true => rfl
    | false =>
      have apart : name ≠ key := fun same => other (by rw [same])
      simp only [Bool.false_eq_true, if_false]
      rw [checkMemoryBucket]
      exact congrArg _ (Function.update_of_ne apart _ _)

section Group

variable {limit : ℤ} (scaled : scaledLimit tier overridePerMinute (groupMultiplier group) = limit)
include scaled

/-- What a bucket lets through of a run does not depend on the requests of other buckets. -/
theorem countP_bucket (place : Bool × String) (stores : Stores)
    (grouped : ∀ request ∈ requests, endpointGroup request.route.method request.route.path = group) :
    ((handle clientKey tier overridePerMinute stores requests).countP fun decision =>
        bucketOf clientKey tier decision.1.route = place ∧ decision.2) =
      admitted (limit : ℚ) (limit / 60 / 1000) (stores.bucket place)
        ((requests.filter fun request => bucketOf clientKey tier request.route = place).map
          fun request => (request.now : ℚ)) := by
  induction requests generalizing stores with
  | nil => rfl
  | cons request rest ih =>
    have multiplied : scaledLimit tier overridePerMinute
        (getEndpointMultiplier request.route.method request.route.path) = limit := by
      rw [getEndpointMultiplier, grouped request List.mem_cons_self, scaled]
    obtain ⟨stored, allowed, others⟩ := bucket_checkTokenBucket clientKey multiplied stores
    have later := ih (checkTokenBucket stores clientKey tier overridePerMinute request).1
      fun next member => grouped next (List.mem_cons_of_mem _ member)
    rw [handle, List.countP_cons, later]
    by_cases here : bucketOf clientKey tier request.route = place
    · subst here
      rw [List.filter_cons_of_pos (by simp), List.map_cons, admitted, stored, allowed, Nat.add_comm]
      simp
    · rw [List.filter_cons_of_neg (by simpa using here), others place (Ne.symm here)]
      simp [here]

end Group

/-- The tokens of a bucket are not negative and within its limit. -/
def Sound (place : Bool × String) (limit : ℤ) (stores : Stores) : Prop :=
  ∀ b ∈ stores.bucket place, Filled (limit : ℚ) b

section Single

variable {limit : ℤ} (room : 0 ≤ limit)
  (scaled : scaledLimit tier overridePerMinute (groupMultiplier group) = limit)
  (grouped : ∀ request ∈ requests, endpointGroup request.route.method request.route.path = group)
  (single : ∀ request ∈ requests, bucketOf clientKey tier request.route = place)
include scaled grouped single

/-- From the start of the window on every request counts until the window ends. -/
theorem allowedWithin_eq (started : ∀ request ∈ requests, s ≤ request.now) (stores : Stores)
    (sorted : requests.Pairwise fun earlier later => earlier.now ≤ later.now) :
    allowedWithin s t (handle clientKey tier overridePerMinute stores requests) =
      admitted (limit : ℚ) (limit / 60 / 1000) (stores.bucket place)
        ((requests.filter fun request => request.now ≤ t).map fun request => (request.now : ℚ)) := by
  induction requests generalizing stores with
  | nil => rfl
  | cons request rest ih =>
    have multiplied : scaledLimit tier overridePerMinute
        (getEndpointMultiplier request.route.method request.route.path) = limit := by
      rw [getEndpointMultiplier, grouped request List.mem_cons_self, scaled]
    obtain ⟨stored, allowed, -⟩ := bucket_checkTokenBucket clientKey multiplied stores
    rw [single request List.mem_cons_self] at stored allowed
    obtain ⟨ordered, sorted⟩ := List.pairwise_cons.mp sorted
    have later := ih (fun next member => grouped next (List.mem_cons_of_mem _ member))
      (fun next member => single next (List.mem_cons_of_mem _ member))
      (fun next member => started next (List.mem_cons_of_mem _ member))
      (checkTokenBucket stores clientKey tier overridePerMinute request).1 sorted
    have start := started request List.mem_cons_self
    rw [allowedWithin] at later ⊢
    rw [handle, List.countP_cons, later]
    by_cases inside : request.now ≤ t
    · rw [List.filter_cons_of_pos (by simpa using inside), List.map_cons, admitted, stored, allowed, Nat.add_comm]
      simp [start, inside]
    · -- a request after the window has only later ones behind it
      have empty : rest.filter (fun request => request.now ≤ t) = [] := by
        refine List.filter_eq_nil_iff.mpr fun next member early => ?_
        have next_later := ordered next member
        simp only [decide_eq_true_eq] at early
        omega
      rw [List.filter_cons_of_neg (by simpa using inside), empty]
      simp [inside, admitted]

include room

theorem allowedWithin_le (interval : s ≤ t) (stores : Stores) (sound : Sound place limit stores)
    (sorted : requests.Pairwise fun earlier later => earlier.now ≤ later.now) :
    (allowedWithin s t (handle clientKey tier overridePerMinute stores requests) : ℚ) ≤
      limit + limit / 60 / 1000 * ((t : ℚ) - s) := by
  have capacity : (0 : ℚ) ≤ limit := by exact_mod_cast room
  have rate : (0 : ℚ) ≤ limit / 60 / 1000 := by positivity
  have length : (0 : ℚ) ≤ (t : ℚ) - s := by
    rw [sub_nonneg]
    exact_mod_cast interval
  induction requests generalizing stores with
  | nil =>
    rw [handle, allowedWithin, List.countP_nil, Nat.cast_zero]
    positivity
  | cons request rest ih =>
    by_cases started : s ≤ request.now
    · have all_started : ∀ next ∈ request :: rest, s ≤ next.now := by
        intro next member
        rcases List.mem_cons.mp member with rfl | member
        · exact started
        · exact started.trans ((List.pairwise_cons.mp sorted).1 next member)
      rw [allowedWithin_eq scaled grouped single all_started stores sorted]
      refine (admitted_known_le capacity rate sound _).trans ?_
      refine add_le_add (le_refl _) (mul_le_mul_of_nonneg_left ?_ rate)
      refine forward_le_of_sorted (by exact_mod_cast interval) ?_ ?_
      · rw [List.pairwise_map]
        refine (sorted.filter _).imp fun {earlier later} less => ?_
        exact_mod_cast less
      · intro now member
        obtain ⟨next, kept, rfl⟩ := List.mem_map.mp member
        obtain ⟨listed, early⟩ := List.mem_filter.mp kept
        have late := all_started next listed
        simp only [decide_eq_true_eq] at early
        exact ⟨by exact_mod_cast late, by exact_mod_cast early⟩
    · have multiplied : scaledLimit tier overridePerMinute
          (getEndpointMultiplier request.route.method request.route.path) = limit := by
        rw [getEndpointMultiplier, grouped request List.mem_cons_self, scaled]
      obtain ⟨stored, -, -⟩ := bucket_checkTokenBucket clientKey multiplied stores
      rw [single request List.mem_cons_self] at stored
      have kept : Sound place limit (checkTokenBucket stores clientKey tier overridePerMinute request).1 := by
        intro b found
        rw [stored] at found
        exact Option.some.inj found ▸ filled_request capacity rate sound
      have later := ih (fun next member => grouped next (List.mem_cons_of_mem _ member))
        (fun next member => single next (List.mem_cons_of_mem _ member)) _ kept (List.pairwise_cons.mp sorted).2
      rw [allowedWithin] at later ⊢
      rw [handle, List.countP_cons]
      simpa [started] using later

end Single

theorem map_fst_handle (stores : Stores) :
    (handle clientKey tier overridePerMinute stores requests).map Prod.fst = requests := by
  induction requests generalizing stores with
  | nil => rfl
  | cons request rest ih => rw [handle, List.map_cons, ih]

theorem countP_add_countP_le {α : Type} {p q r : α → Bool} (items : List α) (left : ∀ x ∈ items, p x = true → r x = true)
    (right : ∀ x ∈ items, q x = true → r x = true) (apart : ∀ x ∈ items, p x = true → q x = false) :
    items.countP p + items.countP q ≤ items.countP r := by
  induction items with
  | nil => exact le_refl _
  | cons x rest ih =>
    have later := ih (fun y member => left y (List.mem_cons_of_mem _ member))
      (fun y member => right y (List.mem_cons_of_mem _ member))
      (fun y member => apart y (List.mem_cons_of_mem _ member))
    have p_r := left x List.mem_cons_self
    have q_r := right x List.mem_cons_self
    have p_q := apart x List.mem_cons_self
    simp only [List.countP_cons]
    cases here : p x
    · cases there : q x
      · simp only [Bool.false_eq_true, if_false]
        omega
      · simp only [q_r there, Bool.false_eq_true, if_true, if_false]
        omega
    · simp only [p_q here, p_r here, Bool.false_eq_true, if_true, if_false]
      omega

/-- In every minute, as many requests along each of the routes as a bucket holds. -/
def rush (size : Nat) (routes : List Route) (start : Int) : Nat → List Request
  | 0 => []
  | n + 1 => routes.flatMap (fun route => List.replicate size ⟨route, start⟩) ++ rush size routes (start + 60000) n

theorem mem_rush {size n : Nat} {routes : List Route} {start : Int} (member : request ∈ rush size routes start n) :
    request.route ∈ routes ∧ start ≤ request.now ∧ request.now + 60000 ≤ start + 60000 * n := by
  induction n generalizing start with
  | zero => cases member
  | succ n ih =>
    rcases List.mem_append.mp member with now | later
    · obtain ⟨route, listed, copies⟩ := List.mem_flatMap.mp now
      obtain rfl := (List.mem_replicate.mp copies).2
      refine ⟨listed, le_refl _, ?_⟩
      push_cast
      omega
    · obtain ⟨listed, after_start, before_end⟩ := ih later
      refine ⟨listed, ?_, ?_⟩
      · omega
      · push_cast
        omega

theorem sorted_rush (size n : Nat) (routes : List Route) (start : Int) :
    (rush size routes start n).Pairwise fun earlier later => earlier.now ≤ later.now := by
  induction n generalizing start with
  | zero => exact List.Pairwise.nil
  | succ n ih =>
    have same : ∀ request ∈ routes.flatMap (fun route => List.replicate size (⟨route, start⟩ : Request)),
        request.now = start := by
      intro request member
      obtain ⟨route, -, copies⟩ := List.mem_flatMap.mp member
      rw [(List.mem_replicate.mp copies).2]
    refine List.pairwise_append.mpr ⟨?_, ih _, fun earlier now later member => ?_⟩
    · refine List.pairwise_of_forall_mem_list fun earlier first later second => ?_
      rw [same earlier first, same later second]
    · have next := (mem_rush member).2.1
      rw [same earlier now]
      omega

/-- The requests of one of the routes come in rounds. -/
theorem filter_rush {size n : Nat} {routes : List Route} {route : Route} (start : Int)
    (once : (routes.filter fun other => bucketOf clientKey tier other = bucketOf clientKey tier route) = [route]) :
    ((rush size routes start n).filter fun request =>
        bucketOf clientKey tier request.route = bucketOf clientKey tier route).map (fun request => (request.now : ℚ)) =
      rounds size 60000 ((start : ℚ) - 60000) n := by
  induction n generalizing start with
  | zero => rfl
  | succ n ih =>
    have shifted : ((start + 60000 : Int) : ℚ) - 60000 = (start : ℚ) - 60000 + 60000 := by
      push_cast
      ring
    have here : (routes.flatMap fun other => List.replicate size (⟨other, start⟩ : Request)).filter
        (fun request => bucketOf clientKey tier request.route = bucketOf clientKey tier route) =
        (routes.filter fun other => bucketOf clientKey tier other = bucketOf clientKey tier route).flatMap
          fun other => List.replicate size (⟨other, start⟩ : Request) := by
      clear once ih
      induction routes with
      | nil => rfl
      | cons other rest ih =>
        rw [List.flatMap_cons, List.filter_append, ih]
        by_cases same : bucketOf clientKey tier other = bucketOf clientKey tier route
        · rw [List.filter_cons_of_pos (by simpa using same), List.flatMap_cons]
          congr 1
          refine List.filter_eq_self.mpr fun request copies => ?_
          rw [(List.mem_replicate.mp copies).2]
          simpa using same
        · rw [List.filter_cons_of_neg (by simpa using same)]
          have none_left : (List.replicate size (⟨other, start⟩ : Request)).filter
              (fun request => bucketOf clientKey tier request.route = bucketOf clientKey tier route) = [] := by
            refine List.filter_eq_nil_iff.mpr fun request copies => ?_
            rw [(List.mem_replicate.mp copies).2]
            simpa using same
          rw [none_left, List.nil_append]
    rw [rush, List.filter_append, here, once, List.map_append, ih, rounds, shifted]
    simp

/-- A bucket lets the whole rush through. -/
theorem countP_rush (clientKey : String) (n : Nat) {size : Nat} {routes : List Route} (route : Route)
    (scaled : scaledLimit tier overridePerMinute (groupMultiplier group) = (size + 1 : Nat))
    (grouped : ∀ route ∈ routes, endpointGroup route.method route.path = group)
    (once : (routes.filter fun other => bucketOf clientKey tier other = bucketOf clientKey tier route) = [route]) :
    ((handle clientKey tier overridePerMinute Stores.empty (rush (size + 1) routes 0 (n + 1))).countP fun decision =>
      bucketOf clientKey tier decision.1.route = bucketOf clientKey tier route ∧ decision.2) = (size + 1) * (n + 1) := by
  have members : ∀ request ∈ rush (size + 1) routes 0 (n + 1),
      endpointGroup request.route.method request.route.path = group :=
    fun request member => grouped _ (mem_rush member).1
  have fresh : Stores.empty.bucket (bucketOf clientKey tier route) = none := by
    rw [Stores.bucket]
    split <;> rfl
  have earned : (60000 : ℚ) * (((size + 1 : Nat) : ℚ) / 60 / 1000) = (size + 1 : Nat) := by ring
  rw [countP_bucket scaled _ _ members, fresh, filter_rush 0 once, Int.cast_natCast, Int.cast_zero]
  exact admitted_rounds_new (by norm_num) earned 0 n

theorem burst_of_rush {size n : Nat} {routes : List Route} {all : Set Route}
    (kept : BurstsKept clientKey tier overridePerMinute group all) (listed : ∀ route ∈ routes, route ∈ all)
    (grouped : ∀ route ∈ routes, endpointGroup route.method route.path = group)
    (scaled : scaledLimit tier overridePerMinute (groupMultiplier group) = (size + 1 : Nat)) :
    (handle clientKey tier overridePerMinute Stores.empty (rush (size + 1) routes 0 (n + 1))).countP
      (fun decision => decision.2) ≤ (tierLimits tier).burst + n * (size + 1) + 1 := by
  have bound := kept (rush (size + 1) routes 0 (n + 1))
    (fun request member => ⟨listed _ (mem_rush member).1, grouped _ (mem_rush member).1⟩) (sorted_rush _ _ _ _) 0
    (60000 * n) (by positivity)
  have counted : allowedWithin 0 (60000 * n)
      (handle clientKey tier overridePerMinute Stores.empty (rush (size + 1) routes 0 (n + 1))) =
      (handle clientKey tier overridePerMinute Stores.empty (rush (size + 1) routes 0 (n + 1))).countP
        fun decision => decision.2 := by
    refine List.countP_congr fun decision member => ?_
    have asked := List.mem_map_of_mem (f := Prod.fst) member
    rw [map_fst_handle] at asked
    obtain ⟨-, started, ended⟩ := mem_rush asked
    push_cast at ended
    have within : decision.1.now ≤ 60000 * n := by omega
    simp [started, within]
  rw [counted, scaled] at bound
  have total : (((60000 * n : Int) : ℚ) - (0 : Int)) / 1000 * ((((size + 1 : Nat) : Int) : ℚ) / 60) =
      n * (size + 1 : Nat) := by
    push_cast
    ring
  rw [total] at bound
  exact_mod_cast bound

/-- Two buckets admit twice the rate, one more than the burst at once. -/
theorem confined_of_burstsKept {routes : Set Route}
    (kept : BurstsKept clientKey tier overridePerMinute group routes) :
    Confined clientKey tier overridePerMinute group routes := by
  have nonneg : 0 ≤ scaledLimit tier overridePerMinute (groupMultiplier group) := by
    by_contra negative
    have bound := kept [] (fun _ impossible => by cases impossible) List.Pairwise.nil 0
      (60000 * ((tierLimits tier).burst + 2)) (by positivity)
    have least : (scaledLimit tier overridePerMinute (groupMultiplier group) : ℚ) ≤ -1 := by
      exact_mod_cast (by omega : scaledLimit tier overridePerMinute (groupMultiplier group) ≤ -1)
    have burst : (0 : ℚ) ≤ (tierLimits tier).burst := Nat.cast_nonneg _
    rw [handle, allowedWithin, List.countP_nil] at bound
    push_cast at bound
    nlinarith
  refine ⟨nonneg, or_iff_not_imp_left.mpr fun nonzero route used inGroup => ?_⟩
  obtain ⟨size, scaled⟩ : ∃ size : Nat,
      scaledLimit tier overridePerMinute (groupMultiplier group) = (size + 1 : Nat) :=
    ⟨(scaledLimit tier overridePerMinute (groupMultiplier group)).toNat - 1, by omega⟩
  refine ⟨?_, fun other used' inGroup' => ?_⟩
  · have single : ∀ next ∈ [route], endpointGroup next.method next.path = group := by
      simpa using inGroup
    have count := countP_rush clientKey 0 route scaled single (by simp)
    have bound := burst_of_rush (n := 0) kept (by simpa using used) single scaled
    have part : (handle clientKey tier overridePerMinute Stores.empty (rush (size + 1) [route] 0 (0 + 1))).countP
        (fun decision => bucketOf clientKey tier decision.1.route = bucketOf clientKey tier route ∧ decision.2) ≤
        (handle clientKey tier overridePerMinute Stores.empty (rush (size + 1) [route] 0 (0 + 1))).countP
          (fun decision => decision.2) :=
      List.countP_mono_left fun decision _ both => by simpa using (of_decide_eq_true both).2
    rw [scaled]
    omega
  · by_contra apart
    have both : ∀ next ∈ [route, other], endpointGroup next.method next.path = group := by
      simpa using ⟨inGroup, inGroup'⟩
    have first := countP_rush clientKey ((tierLimits tier).burst + 1) route scaled both
      (by simp [apart])
    have second := countP_rush clientKey ((tierLimits tier).burst + 1) other scaled both
      (by simp [Ne.symm apart])
    have bound := burst_of_rush (n := (tierLimits tier).burst + 1) kept (by simpa using ⟨used, used'⟩) both scaled
    have parts := countP_add_countP_le (r := fun decision : Request × Bool => decision.2)
      (p := fun decision => bucketOf clientKey tier decision.1.route = bucketOf clientKey tier route ∧ decision.2)
      (q := fun decision => bucketOf clientKey tier decision.1.route = bucketOf clientKey tier other ∧ decision.2)
      (handle clientKey tier overridePerMinute Stores.empty
        (rush (size + 1) [route, other] 0 ((tierLimits tier).burst + 1 + 1)))
      (fun decision _ both => by simpa using (of_decide_eq_true both).2)
      (fun decision _ both => by simpa using (of_decide_eq_true both).2)
      (fun decision _ here => by
        have same := (of_decide_eq_true here).1
        simp [same, Ne.symm apart])
    rw [first, second] at parts
    nlinarith

/-- Without a limit to spend nothing passes. -/
theorem allowedWithin_of_zero (scaled : scaledLimit tier overridePerMinute (groupMultiplier group) = 0)
    (grouped : ∀ request ∈ requests, endpointGroup request.route.method request.route.path = group) (stores : Stores) :
    allowedWithin s t (handle clientKey tier overridePerMinute stores requests) = 0 := by
  induction requests generalizing stores with
  | nil => rfl
  | cons request rest ih =>
    have multiplied : scaledLimit tier overridePerMinute
        (getEndpointMultiplier request.route.method request.route.path) = 0 := by
      rw [getEndpointMultiplier, grouped request List.mem_cons_self, scaled]
    have refused : (checkTokenBucket stores clientKey tier overridePerMinute request).2.allowed = false := by
      rw [(bucket_checkTokenBucket clientKey multiplied stores).2.1, Bucket.request, Bucket.take]
      refine congrArg Prod.snd (if_neg fun enough => ?_)
      have empty := min_le_left ((0 : ℤ) : ℚ) (((stores.bucket (bucketOf clientKey tier request.route)).getD
        ⟨((0 : ℤ) : ℚ), request.now⟩).tokens + max 0 ((request.now : ℚ) - ((stores.bucket
          (bucketOf clientKey tier request.route)).getD ⟨((0 : ℤ) : ℚ), request.now⟩).lastRefill) *
          (((0 : ℤ) : ℚ) / 60 / 1000))
      have impossible := enough.trans empty
      norm_num at impossible
    have later := ih (fun next member => grouped next (List.mem_cons_of_mem _ member))
      (checkTokenBucket stores clientKey tier overridePerMinute request).1
    rw [allowedWithin] at later ⊢
    rw [handle, List.countP_cons, later, refused]
    simp

theorem burstsKept_of_confined {routes : Set Route}
    (confined : Confined clientKey tier overridePerMinute group routes) :
    BurstsKept clientKey tier overridePerMinute group routes := by
  intro requests inside sorted s t interval
  obtain ⟨room, none_or_one⟩ := confined
  have grouped := fun request member => (inside request member).2
  have length : (0 : ℚ) ≤ (t : ℚ) - s := by
    rw [sub_nonneg]
    exact_mod_cast interval
  have capacity : (0 : ℚ) ≤ scaledLimit tier overridePerMinute (groupMultiplier group) := by exact_mod_cast room
  rcases none_or_one with zero | one
  · rw [allowedWithin_of_zero zero grouped]
    positivity
  · cases requests with
    | nil =>
      rw [handle, allowedWithin, List.countP_nil, Nat.cast_zero]
      positivity
    | cons request rest =>
      obtain ⟨small, single⟩ := one request.route (inside request List.mem_cons_self).1
        (inside request List.mem_cons_self).2
      have fresh : Sound (bucketOf clientKey tier request.route)
          (scaledLimit tier overridePerMinute (groupMultiplier group)) Stores.empty := by
        intro b found
        rw [Stores.bucket] at found
        split at found <;> cases found
      have most := allowedWithin_le room rfl grouped
        (fun next member => single next.route (inside next member).1 (inside next member).2) interval Stores.empty
        fresh sorted
      have burst : (scaledLimit tier overridePerMinute (groupMultiplier group) : ℚ) ≤ (tierLimits tier).burst + 1 := by
        exact_mod_cast small
      refine most.trans ?_
      have same : (scaledLimit tier overridePerMinute (groupMultiplier group) : ℚ) / 60 / 1000 * ((t : ℚ) - s) =
          ((t : ℚ) - s) / 1000 * (scaledLimit tier overridePerMinute (groupMultiplier group) / 60) := by ring
      linarith

/-- A group keeps to its tier's burst exactly when its requests end in one small bucket. -/
theorem burstsKept_iff (clientKey : String) (tier : RateLimitTier) (overridePerMinute : Option ℚ)
    (group : Option EndpointGroup) (routes : Set Route) :
    BurstsKept clientKey tier overridePerMinute group routes ↔
      Confined clientKey tier overridePerMinute group routes :=
  ⟨confined_of_burstsKept, burstsKept_of_confined⟩

/-- Sixty requests at once instead of ten. -/
theorem unauthenticated_events_burst :
    ¬ BurstsKept "203.0.113.7" .unauthenticated none (endpointGroup "GET" "/api/v1/events") Set.univ := by
  intro kept
  have confined := confined_of_burstsKept kept
  have sixty : scaledLimit .unauthenticated none (groupMultiplier (endpointGroup "GET" "/api/v1/events")) = 60 := by
    decide +kernel
  rcases confined.2 with zero | one
  · rw [sixty] at zero
    cases zero
  · have small := (one ⟨"GET", "/api/v1/events", true⟩ (Set.mem_univ _) rfl).1
    rw [sixty] at small
    exact absurd small (by decide)

end Octraban.Tiers
