import Octraban.Core.TokenBucket
import Mathlib.Data.Rat.Floor

/-! The token bucket of middleware/tokenBucket.ts: a Lua script in Redis, and its fallback in
memory. `now` is the caller's clock, and every evaluation stores it. -/
namespace Octraban.RateLimit
open TokenBucket

/-- The fields `tokens` and `last_refill` of a key. -/
structure Hash where
  tokens : ℚ
  lastRefill : Int

/-- The reply has 1 where the request is allowed, the remaining tokens and the time of the reset. -/
def tokenBucketLua (redis : String → Option Hash) (key : String) (capacity refillRate : ℚ) (now : Int) :
    (String → Option Hash) × Nat × Int × Int :=
  let (tokens, lastRefill) := match redis key with
    | none => (capacity, now)
    | some data => (data.tokens, data.lastRefill)
  let elapsed := max 0 (now - lastRefill)
  let newTokens := (elapsed : ℚ) / 1000 * refillRate
  let tokens := min capacity (tokens + newTokens)
  let lastRefill := now
  let (tokens, allowed) := if 1 ≤ tokens then (tokens - 1, 1) else (tokens, 0)
  let resetAt := ⌈(now : ℚ) / 1000 + (capacity - tokens) / refillRate⌉
  (Function.update redis key (some ⟨tokens, lastRefill⟩), allowed, ⌊tokens⌋, resetAt)

structure MemBucket where
  tokens : ℚ
  lastRefill : Int

def checkMemoryBucket (memBuckets : String → Option MemBucket) (key : String) (capacity refillRate : ℚ)
    (now : Int) : (String → Option MemBucket) × Bool × Int × Int :=
  let bucket := (memBuckets key).getD ⟨capacity, now⟩
  let elapsed := max 0 (now - bucket.lastRefill)
  let tokens := min capacity (bucket.tokens + (elapsed : ℚ) / 1000 * refillRate)
  let allowed := decide (1 ≤ tokens)
  let tokens := if allowed then tokens - 1 else tokens
  let resetAt := ⌈(now : ℚ) / 1000 + (capacity - tokens) / refillRate⌉
  (Function.update memBuckets key (some ⟨tokens, now⟩), allowed, ⌊tokens⌋, resetAt)

/-- `checkTokenBucket` reads the script's reply. -/
def readReply (result : Nat × Int × Int) : Bool × Int × Int := (result.1 = 1, result.2)

/-- Evaluations one after the other, each with its own `now`. -/
def serve {M R : Type} (evaluate : M → Int → M × R) (store : M) : List Int → M × List R
  | [] => (store, [])
  | now :: rest =>
    let (store, reply) := evaluate store now
    let (store, replies) := serve evaluate store rest
    (store, reply :: replies)

def serveRedis (key : String) (capacity refillRate : ℚ) (nows : List Int) :
    (String → Option Hash) × List (Nat × Int × Int) :=
  serve (fun redis now => tokenBucketLua redis key capacity refillRate now) (fun _ => none) nows

def serveMemory (key : String) (capacity refillRate : ℚ) (nows : List Int) :
    (String → Option MemBucket) × List (Bool × Int × Int) :=
  serve (fun memBuckets now => checkMemoryBucket memBuckets key capacity refillRate now) (fun _ => none) nows

/-- The number of requests allowed. -/
def allowedCount (key : String) (capacity refillRate : ℚ) (nows : List Int) : Nat :=
  (serveMemory key capacity refillRate nows).2.countP fun reply => reply.1

/-- Some number of requests at each reading of the clock. -/
def requests (load : Nat) (clock : List Int) : List Int := clock.flatMap (List.replicate load)

/-- What holds of the stored tokens and of the two implementations. -/
structure Consistent (key : String) (capacity refillRate : ℚ) (nows : List Int) : Prop where
  redis : ∀ data ∈ (serveRedis key capacity refillRate nows).1 key, 0 ≤ data.tokens ∧ data.tokens ≤ capacity
  memory : ∀ bucket ∈ (serveMemory key capacity refillRate nows).1 key,
    0 ≤ bucket.tokens ∧ bucket.tokens ≤ capacity
  agree : (serveMemory key capacity refillRate nows).2 =
    (serveRedis key capacity refillRate nows).2.map readReply

def MemBucket.bucket (b : MemBucket) : Bucket ℚ := ⟨b.tokens, b.lastRefill⟩

/-- A hash as an entry of `memBuckets`. -/
def Hash.entry (data : Hash) : MemBucket := ⟨data.tokens, data.lastRefill⟩

variable {key : String} {capacity refillRate : ℚ} {now s t : Int} {nows clock : List Int}
  {redis : String → Option Hash} {memBuckets : String → Option MemBucket}

/-- The script and its fallback do the same to one key. -/
theorem lua_eq_memory (capacity refillRate : ℚ) (now : Int) (same : (redis key).map Hash.entry = memBuckets key) :
    (((tokenBucketLua redis key capacity refillRate now).1 key).map Hash.entry =
      (checkMemoryBucket memBuckets key capacity refillRate now).1 key) ∧
    readReply (tokenBucketLua redis key capacity refillRate now).2 =
      (checkMemoryBucket memBuckets key capacity refillRate now).2 := by
  unfold tokenBucketLua checkMemoryBucket readReply
  rw [← same]
  cases redis key with
  | none =>
    simp only [Option.map_none, Option.getD_none, Function.update_self, Option.map_some]
    by_cases enough : 1 ≤ min capacity (capacity + ((max 0 (now - now) : Int) : ℚ) / 1000 * refillRate)
    · simp only [enough, decide_true, if_true]
      exact ⟨by trivial, by trivial⟩
    · simp only [enough, decide_false, if_false]
      exact ⟨by trivial, by trivial⟩
  | some data =>
    simp only [Option.map_some, Option.getD_some, Hash.entry, Function.update_self]
    by_cases enough :
        1 ≤ min capacity (data.tokens + ((max 0 (now - data.lastRefill) : Int) : ℚ) / 1000 * refillRate)
    · simp only [enough, decide_true, if_true]
      exact ⟨by trivial, by trivial⟩
    · simp only [enough, decide_false, if_false]
      exact ⟨by trivial, by trivial⟩

/-- The fallback is a token bucket that earns a thousandth of its rate in a millisecond. -/
theorem memory_eq_request (memBuckets : String → Option MemBucket) (key : String) (capacity refillRate : ℚ)
    (now : Int) : ((checkMemoryBucket memBuckets key capacity refillRate now).1 key).map MemBucket.bucket =
      some (Bucket.request capacity (refillRate / 1000) ((memBuckets key).map MemBucket.bucket) now).1 ∧
    (checkMemoryBucket memBuckets key capacity refillRate now).2.1 =
      (Bucket.request capacity (refillRate / 1000) ((memBuckets key).map MemBucket.bucket) now).2 := by
  have earned (last : Int) : ((max 0 (now - last) : Int) : ℚ) / 1000 * refillRate =
      max 0 ((now : ℚ) - last) * (refillRate / 1000) := by
    push_cast
    ring
  unfold checkMemoryBucket Bucket.request Bucket.refill Bucket.take
  simp only [earned]
  cases memBuckets key with
  | none =>
    simp only [Option.map_none, Option.getD_none, Function.update_self, Option.map_some]
    by_cases enough : 1 ≤ min capacity (capacity + max 0 ((now : ℚ) - now) * (refillRate / 1000))
    · simp only [enough, decide_true, if_true]
      exact ⟨by trivial, by trivial⟩
    · simp only [enough, decide_false, if_false]
      exact ⟨by trivial, by trivial⟩
  | some b =>
    simp only [Option.map_some, Option.getD_some, MemBucket.bucket, Function.update_self]
    by_cases enough : 1 ≤ min capacity (b.tokens + max 0 ((now : ℚ) - b.lastRefill) * (refillRate / 1000))
    · simp only [enough, decide_true, if_true]
      exact ⟨by trivial, by trivial⟩
    · simp only [enough, decide_false, if_false]
      exact ⟨by trivial, by trivial⟩

theorem serve_agree (redis : String → Option Hash) (memBuckets : String → Option MemBucket) (capacity refillRate : ℚ)
    (same : (redis key).map Hash.entry = memBuckets key) (nows : List Int) :
    ((serve (fun redis now => tokenBucketLua redis key capacity refillRate now) redis nows).1 key).map Hash.entry =
      (serve (fun memBuckets now => checkMemoryBucket memBuckets key capacity refillRate now) memBuckets nows).1 key ∧
    (serve (fun redis now => tokenBucketLua redis key capacity refillRate now) redis nows).2.map readReply =
      (serve (fun memBuckets now => checkMemoryBucket memBuckets key capacity refillRate now) memBuckets nows).2 := by
  induction nows generalizing redis memBuckets with
  | nil => exact ⟨same, rfl⟩
  | cons now rest ih =>
    obtain ⟨stored, replied⟩ := lua_eq_memory capacity refillRate now same
    obtain ⟨later, replies⟩ := ih _ _ stored
    exact ⟨later, List.cons_eq_cons.mpr ⟨replied, replies⟩⟩

/-- A run of the fallback is one of the token bucket. -/
theorem serve_eq_admitted (key : String) (capacity refillRate : ℚ) (memBuckets : String → Option MemBucket)
    (nows : List Int) :
    let served := serve (fun memBuckets now => checkMemoryBucket memBuckets key capacity refillRate now) memBuckets nows
    (served.1 key).map MemBucket.bucket =
        after capacity (refillRate / 1000) ((memBuckets key).map MemBucket.bucket) (nows.map Int.cast) ∧
      served.2.countP (fun reply => reply.1) =
        admitted capacity (refillRate / 1000) ((memBuckets key).map MemBucket.bucket) (nows.map Int.cast) := by
  induction nows generalizing memBuckets with
  | nil => exact ⟨rfl, rfl⟩
  | cons now rest ih =>
    obtain ⟨stored, allowed⟩ := memory_eq_request memBuckets key capacity refillRate now
    obtain ⟨left, count⟩ := ih (checkMemoryBucket memBuckets key capacity refillRate now).1
    simp only [serve, List.map_cons, after, admitted, List.countP_cons]
    rw [stored] at left count
    rw [← allowed]
    exact ⟨left, by rw [count, Nat.add_comm]⟩

theorem allowedCount_eq (nows : List Int) : allowedCount key capacity refillRate nows =
    admitted capacity (refillRate / 1000) none (nows.map Int.cast) :=
  (serve_eq_admitted key capacity refillRate (fun _ => none) nows).2

theorem consistent (room : 1 ≤ capacity) (positive : 0 < refillRate) (nows : List Int) :
    Consistent key capacity refillRate nows := by
  have blank : (none : Option Hash).map Hash.entry = none := rfl
  obtain ⟨stored, replied⟩ := serve_agree (fun _ => none) (fun _ => none) capacity refillRate blank nows
  have memory : ∀ bucket ∈ (serveMemory key capacity refillRate nows).1 key,
      0 ≤ bucket.tokens ∧ bucket.tokens ≤ capacity := by
    intro bucket found
    have left := (serve_eq_admitted key capacity refillRate (fun _ => none) nows).1
    have rate : 0 ≤ refillRate / 1000 := div_nonneg positive.le (by norm_num)
    have filled := filled_after none (zero_le_one.trans room) rate (fun b new => by cases new) (nows.map Int.cast)
    exact filled bucket.bucket (left.symm.trans (congrArg (Option.map MemBucket.bucket) found))
  constructor
  · intro data found
    exact memory data.entry (stored.symm.trans (congrArg (Option.map Hash.entry) found))
  · exact memory
  · exact replied.symm

theorem forward_cast (clock : List Int) : forward (clock.map (Int.cast (R := ℚ))) = (forward clock : Int) := by
  induction clock with
  | nil => rfl
  | cons x rest ih =>
    cases rest with
    | nil => rfl
    | cons y rest =>
      simp only [List.map_cons, forward] at ih ⊢
      rw [ih]
      push_cast
      rfl

theorem forward_requests (n : Nat) (clock : List Int) :
    forward ((requests (n + 1) clock).map (Int.cast (R := ℚ))) = (forward clock : Int) := by
  rw [forward_cast, requests, forward_load]

theorem allowedCount_le (key : String) (room : 0 ≤ capacity) (positive : 0 ≤ refillRate) (load : Nat)
    (clock : List Int) : (allowedCount key capacity refillRate (requests load clock) : ℚ) ≤
      capacity + refillRate / 1000 * (forward clock : Int) := by
  rw [allowedCount_eq]
  cases load with
  | zero =>
    have nothing : requests 0 clock = [] := by simp [requests]
    have gone : (0 : ℚ) ≤ (forward clock : Int) := Int.cast_nonneg (forward_nonneg clock)
    rw [nothing, List.map_nil, admitted]
    positivity
  | succ n =>
    rw [← forward_requests n clock]
    exact admitted_new_le room (div_nonneg positive (by norm_num)) _

/-- Readings that come in order keep within the bound. -/
theorem bounded_of_sorted (interval : s ≤ t) (sorted : clock.Pairwise (· ≤ ·))
    (within : ∀ now ∈ clock, s ≤ now ∧ now ≤ t) (room : 0 ≤ capacity) (positive : 0 ≤ refillRate) (load : Nat) :
    (allowedCount key capacity refillRate (requests load clock) : ℚ) ≤
      capacity + refillRate / 1000 * ((t - s : Int) : ℚ) := by
  have way : ((forward clock : Int) : ℚ) ≤ ((t - s : Int) : ℚ) :=
    Int.cast_le.mpr (forward_le_of_sorted interval sorted within)
  have earned := mul_le_mul_of_nonneg_left way (div_nonneg positive (by norm_num : (0 : ℚ) ≤ 1000))
  exact (allowedCount_le key room positive load clock).trans (add_le_add (le_refl _) earned)

/-- Two servers take turns, one a millisecond behind. -/
def turns : List Int := [0, 1, 0, 1, 0, 1]

end Octraban.RateLimit
