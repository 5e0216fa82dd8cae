import Octraban.Core.TokenBucket
import Mathlib.Data.Rat.Floor

/-! rateLimit/tokenBucket.js of the indexer: the buckets in memory that stand in for Redis. They
are refilled by whole tokens. -/
namespace Octraban.FallbackBucket
open TokenBucket

/-- `_fallbackBuckets` -/
abbrev Buckets := String → Option (Bucket ℚ)

structure Consumed where
  allowed : Bool
  remaining : ℚ
  retryAfter : Int
  reset : Int

def fallbackConsume (fallbackBuckets : Buckets) (bucketKey : String) (rpm burst now : ℚ) : Buckets × Consumed :=
  let refillRateMs := 60000 / rpm
  let maxTokens := burst
  let bucket := (fallbackBuckets bucketKey).getD ⟨maxTokens, now⟩
  let elapsed := now - bucket.lastRefill
  let tokensToAdd := ⌊elapsed / refillRateMs⌋
  let bucket : Bucket ℚ :=
    if 0 < tokensToAdd then
      let lastRefill := now + (tokensToAdd * refillRateMs - elapsed)
      ⟨min maxTokens (bucket.tokens + tokensToAdd), if now < lastRefill then now else lastRefill⟩
    else bucket
  let allowed := decide (1 ≤ bucket.tokens)
  let bucket := if allowed then { bucket with tokens := bucket.tokens - 1 } else bucket
  let remaining := bucket.tokens
  (Function.update fallbackBuckets bucketKey (some bucket),
    { allowed, remaining
      retryAfter := if allowed then 0 else ⌈refillRateMs / 1000⌉
      reset := ⌈(now + (maxTokens - remaining) * refillRateMs) / 1000⌉ })

structure Call where
  bucketKey : String
  rpm : ℚ
  burst : ℚ
  now : ℚ

def Call.consume (call : Call) (fallbackBuckets : Buckets) : Buckets × Consumed :=
  fallbackConsume fallbackBuckets call.bucketKey call.rpm call.burst call.now

/-- The buckets that calls leave. -/
def left (fallbackBuckets : Buckets) (calls : List Call) : Buckets :=
  calls.foldl (fun fallbackBuckets call => (call.consume fallbackBuckets).1) fallbackBuckets

/-- How many calls of a key are allowed from one time to another. -/
def allowedWithin (key : String) (s t : ℚ) (fallbackBuckets : Buckets) : List Call → Nat
  | [] => 0
  | call :: rest =>
    let (fallbackBuckets, consumed) := call.consume fallbackBuckets
    (if call.bucketKey = key ∧ consumed.allowed ∧ s ≤ call.now ∧ call.now ≤ t then 1 else 0) +
      allowedWithin key s t fallbackBuckets rest

variable {key : String} {rpm burst s t : ℚ} {fallbackBuckets : Buckets} {calls : List Call}

/-- A call is a request for one of the whole tokens of its bucket. -/
theorem consume_eq (fallbackBuckets : Buckets) (bucketKey : String) (burst now : ℚ) (positive : 0 < rpm) :
    (fallbackConsume fallbackBuckets bucketKey rpm burst now).1 = Function.update fallbackBuckets bucketKey
        (some (requestWhole burst (60000 / rpm) (fallbackBuckets bucketKey) now).1) ∧
      (fallbackConsume fallbackBuckets bucketKey rpm burst now).2.allowed =
        (requestWhole burst (60000 / rpm) (fallbackBuckets bucketKey) now).2 := by
  have interval : 0 < 60000 / rpm := div_pos (by norm_num) positive
  generalize start : (fallbackBuckets bucketKey).getD ⟨burst, now⟩ = b
  -- the time left over is never negative, so lastRefill is not cut off at now
  have refilled : (if 0 < ⌊(now - b.lastRefill) / (60000 / rpm)⌋ then
      (⟨min burst (b.tokens + ⌊(now - b.lastRefill) / (60000 / rpm)⌋),
        if now < now + (⌊(now - b.lastRefill) / (60000 / rpm)⌋ * (60000 / rpm) - (now - b.lastRefill)) then now
        else now + (⌊(now - b.lastRefill) / (60000 / rpm)⌋ * (60000 / rpm) - (now - b.lastRefill))⟩ : Bucket ℚ)
      else b) = b.refillWhole burst (60000 / rpm) now := by
    have under := (le_div_iff₀ interval).mp (Int.floor_le ((now - b.lastRefill) / (60000 / rpm)))
    have uncut : ¬ now < now + (⌊(now - b.lastRefill) / (60000 / rpm)⌋ * (60000 / rpm) - (now - b.lastRefill)) := by
      linarith
    have carried : now + (⌊(now - b.lastRefill) / (60000 / rpm)⌋ * (60000 / rpm) - (now - b.lastRefill)) =
        b.lastRefill + ⌊(now - b.lastRefill) / (60000 / rpm)⌋ * (60000 / rpm) := by ring
    unfold Bucket.refillWhole
    rw [if_neg uncut, carried]
  unfold fallbackConsume requestWhole Bucket.take
  simp only [start, refilled]
  by_cases enough : 1 ≤ (b.refillWhole burst (60000 / rpm) now).tokens
  · simp [enough]
  · simp [enough]

/-- Only the calls of a key touch its bucket. -/
theorem consume_other (call : Call) (other : call.bucketKey ≠ key) :
    (call.consume fallbackBuckets).1 key = fallbackBuckets key := by
  unfold Call.consume fallbackConsume
  exact Function.update_of_ne other.symm _ _

theorem left_append (calls : List Call) (call : Call) :
    left fallbackBuckets (calls ++ [call]) = (call.consume (left fallbackBuckets calls)).1 := by
  rw [left, List.foldl_append]
  rfl

theorem allowedWithin_eq (positive : 0 < rpm) (fallbackBuckets : Buckets)
    (fixed : ∀ call ∈ calls, call.bucketKey = key → call.rpm = rpm ∧ call.burst = burst) :
    allowedWithin key s t fallbackBuckets calls = admittedWithin s t burst (60000 / rpm) (fallbackBuckets key)
      ((calls.filter (·.bucketKey = key)).map Call.now) := by
  induction calls generalizing fallbackBuckets with
  | nil => rfl
  | cons call rest ih =>
    obtain ⟨here, later⟩ := List.forall_mem_cons.mp fixed
    simp only [allowedWithin, ih _ later]
    by_cases own : call.bucketKey = key
    · obtain ⟨ownRpm, ownBurst⟩ := here own
      subst own ownRpm ownBurst
      obtain ⟨stored, allowed⟩ := consume_eq fallbackBuckets call.bucketKey call.burst call.now positive
      simp [admittedWithin, Call.consume, stored, allowed]
    · simp [own, consume_other]

theorem sound_call (positive : 0 < rpm) (room : 0 ≤ burst) (call : Call)
    (fixed : call.bucketKey = key → call.rpm = rpm ∧ call.burst = burst)
    (sound : ∀ b ∈ fallbackBuckets key, Sound burst call.now b) :
    ∀ b ∈ (call.consume fallbackBuckets).1 key, Sound burst call.now b := by
  intro b present
  by_cases own : call.bucketKey = key
  · obtain ⟨ownRpm, ownBurst⟩ := fixed own
    subst own ownRpm ownBurst
    rw [Call.consume, (consume_eq _ _ _ _ positive).1, Function.update_self] at present
    cases present
    exact (sound_requestWhole room (div_pos (by norm_num) positive) sound).1
  · rw [consume_other call own] at present
    exact sound b present

/-- What the calls of a key leave is a sound bucket, at any later time. -/
theorem left_sound (positive : 0 < rpm) (room : 0 ≤ burst) (calls : List Call)
    (fixed : ∀ call ∈ calls, call.bucketKey = key → call.rpm = rpm ∧ call.burst = burst)
    (sorted : (calls.map Call.now).Pairwise (· ≤ ·)) (now : ℚ) (past : ∀ call ∈ calls, call.now ≤ now) :
    ∀ b ∈ left (fun _ => none) calls key, Sound burst now b := by
  induction calls using List.reverseRecOn generalizing now with
  | nil =>
    rintro b ⟨⟩
  | append_singleton calls call ih =>
    rw [List.map_append, List.pairwise_append] at sorted
    obtain ⟨sorted, -, ordered⟩ := sorted
    have before : ∀ b ∈ left (fun _ => none) calls key, Sound burst call.now b :=
      ih (fun call member => fixed call (List.mem_append_left _ member)) sorted call.now
        fun earlier member => ordered _ (List.mem_map_of_mem member) _ List.mem_cons_self
    intro b present
    rw [left_append] at present
    have sound := sound_call positive room call (fixed call (List.mem_append_right _ List.mem_cons_self)) before b present
    exact sound.later (past call (List.mem_append_right _ List.mem_cons_self))

theorem forward_call (positive : 0 < rpm) (room : 0 ≤ burst) (call : Call)
    (fixed : call.bucketKey = key → call.rpm = rpm ∧ call.burst = burst)
    (sound : ∀ b ∈ fallbackBuckets key, Sound burst call.now b) :
    ∀ old ∈ fallbackBuckets key, ∀ b ∈ (call.consume fallbackBuckets).1 key, old.lastRefill ≤ b.lastRefill := by
  have interval : 0 < 60000 / rpm := div_pos (by norm_num) positive
  intro old present b now_present
  by_cases own : call.bucketKey = key
  · obtain ⟨ownRpm, ownBurst⟩ := fixed own
    subst own ownRpm ownBurst
    rw [Call.consume, (consume_eq _ _ _ _ positive).1, Function.update_self] at now_present
    cases now_present
    exact (sound_requestWhole room interval sound).2 old present
  · rw [consume_other call own] at now_present
    cases present.symm.trans now_present
    exact le_refl _

theorem fallback_bounded (key : String) (rpm burst s t : ℚ) (positive : 0 < rpm) (room : 1 ≤ burst) (window : s ≤ t)
    (calls : List Call) (sorted : (calls.map Call.now).Pairwise (· ≤ ·))
    (fixed : ∀ call ∈ calls, call.bucketKey = key → call.rpm = rpm ∧ call.burst = burst) :
    (allowedWithin key s t (fun _ => none) calls : ℚ) ≤ burst + (t - s) * rpm / 60000 + 1 ∧
      ∀ before call rest, calls = before ++ call :: rest →
        ∀ bucket ∈ left (fun _ => none) (before ++ [call]) key,
          0 ≤ bucket.tokens ∧ bucket.tokens ≤ burst ∧ bucket.lastRefill ≤ call.now ∧
            ∀ old ∈ left (fun _ => none) before key, old.lastRefill ≤ bucket.lastRefill := by
  have nonneg : 0 ≤ burst := zero_le_one.trans room
  constructor
  · have interval : 0 < 60000 / rpm := div_pos (by norm_num) positive
    have own_sorted : ((calls.filter (·.bucketKey = key)).map Call.now).Pairwise (· ≤ ·) :=
      sorted.sublist (List.filter_sublist.map _)
    have bound := admittedWithin_le (s := s) (t := t) nonneg interval window
      (fun b (new : b ∈ none) => nomatch new) own_sorted
    rw [allowedWithin_eq positive _ fixed]
    have time : (t - s) / (60000 / rpm) = (t - s) * rpm / 60000 := div_div_eq_mul_div _ _ _
    rwa [time] at bound
  · rintro before call rest rfl bucket present
    have first : (before ++ [call]).Sublist (before ++ call :: rest) :=
      List.Sublist.append_left (List.singleton_sublist.mpr List.mem_cons_self) before
    have begun : ((before ++ [call]).map Call.now).Pairwise (· ≤ ·) := sorted.sublist (first.map _)
    have known : ∀ c ∈ before ++ [call], c.bucketKey = key → c.rpm = rpm ∧ c.burst = burst :=
      fun c member => fixed c (first.subset member)
    rw [List.map_append, List.pairwise_append] at begun
    have past : ∀ c ∈ before, c.now ≤ call.now := fun c member =>
      begun.2.2 _ (List.mem_map_of_mem member) _ List.mem_cons_self
    have sound := left_sound positive nonneg before (fun c member => known c (List.mem_append_left _ member)) begun.1
      call.now past
    have own := known call (List.mem_append_right _ List.mem_cons_self)
    rw [left_append] at present
    obtain ⟨⟨low, high⟩, last⟩ := sound_call positive nonneg call own sound bucket present
    exact ⟨low, high, last, fun old earlier => forward_call positive nonneg call own sound old earlier bucket present⟩

/-- One token a second: the third call comes too early, the fourth half a second later than its token. -/
def fourCalls : List Call := [0, 0, 900, 1500].map (Call.mk "ip:events" 60 2)

theorem fallback_bounded_fourCalls : allowedWithin "ip:events" 0 1500 (fun _ => none) fourCalls = 3 ∧
    (allowedWithin "ip:events" 0 1500 (fun _ => none) fourCalls : ℚ) ≤ 2 + (1500 - 0) * 60 / 60000 + 1 :=
  ⟨by decide +kernel, (fallback_bounded "ip:events" 60 2 0 1500 (by norm_num) (by norm_num) (by norm_num) fourCalls
    (by decide) (by simp [fourCalls])).1⟩

end Octraban.FallbackBucket
