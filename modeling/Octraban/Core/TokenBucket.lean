import Mathlib.Algebra.Order.Floor.Ring
import Mathlib.Tactic.Positivity
import Mathlib.Tactic.Ring

/-! Token buckets read by clocks that need not agree: a bucket is refilled for the time by which a
reading is past the last one, and remembers every reading. -/
namespace TokenBucket
variable {K : Type*} [CommRing K] [LinearOrder K]

/-- How far a clock has gone forward, whatever it has gone back. -/
def forward : List K → K
  | [] => 0
  | [_] => 0
  | x :: y :: rest => max 0 (y - x) + forward (y :: rest)

structure Bucket (K : Type*) where
  tokens : K
  lastRefill : K

namespace Bucket

def refill (capacity rate now : K) (b : Bucket K) : Bucket K :=
  ⟨min capacity (b.tokens + max 0 (now - b.lastRefill) * rate), now⟩

def take (b : Bucket K) : Bucket K × Bool :=
  if 1 ≤ b.tokens then ({ b with tokens := b.tokens - 1 }, true) else (b, false)

/-- One request; a key seen for the first time has a full bucket. -/
def request (capacity rate : K) (known : Option (Bucket K)) (now : K) : Bucket K × Bool :=
  ((known.getD ⟨capacity, now⟩).refill capacity rate now).take

end Bucket

open Bucket

/-- The number of requests a bucket lets through. -/
def admitted (capacity rate : K) (known : Option (Bucket K)) : List K → Nat
  | [] => 0
  | now :: rest =>
    let (b, allowed) := request capacity rate known now
    (if allowed then 1 else 0) + admitted capacity rate (some b) rest

/-- The bucket that some requests leave. -/
def after (capacity rate : K) (known : Option (Bucket K)) : List K → Option (Bucket K)
  | [] => known
  | now :: rest => after capacity rate (some (request capacity rate known now).1) rest

variable {capacity rate now x : K} {known : Option (Bucket K)} {b : Bucket K} {clock nows others : List K}

theorem admitted_append : admitted capacity rate known (nows ++ others) =
    admitted capacity rate known nows + admitted capacity rate (after capacity rate known nows) others := by
  induction nows generalizing known with
  | nil => simp [admitted, after]
  | cons now rest ih => simp only [List.cons_append, admitted, after, ih, Nat.add_assoc]

theorem request_lastRefill : (request capacity rate known now).1.lastRefill = now := by
  rw [request, take]
  split <;> rfl

theorem forward_stay (n : Nat) (x : K) (rest : List K) :
    forward (x :: (List.replicate n x ++ rest)) = forward (x :: rest) := by
  induction n with
  | zero => rfl
  | succ n ih => simp only [List.replicate_succ, List.cons_append, forward, sub_self, max_self, zero_add, ih]

theorem forward_load_cons (n : Nat) (x : K) (clock : List K) :
    forward (x :: clock.flatMap (List.replicate (n + 1))) = forward (x :: clock) := by
  induction clock generalizing x with
  | nil => rfl
  | cons y rest ih =>
    rw [List.flatMap_cons, List.replicate_succ, List.cons_append]
    simp only [forward, forward_stay, ih]

/-- Reading a clock again at once does not move it. -/
theorem forward_load (n : Nat) (clock : List K) :
    forward (clock.flatMap (List.replicate (n + 1))) = forward clock := by
  cases clock with
  | nil => rfl
  | cons x rest =>
    rw [List.flatMap_cons, List.replicate_succ, List.cons_append, forward_stay, forward_load_cons]

theorem take_spent (b : Bucket K) : (if b.take.2 then 1 else 0) + b.take.1.tokens = b.tokens := by
  rw [take]
  by_cases enough : 1 ≤ b.tokens
  · simp [enough]
  · simp [enough]

/-- What a request takes, the refill before it has paid for. -/
theorem request_potential (capacity rate : K) (b : Bucket K) (now : K) :
    (if (request capacity rate (some b) now).2 then 1 else 0) + (request capacity rate (some b) now).1.tokens ≤
      b.tokens + rate * max 0 (now - b.lastRefill) := by
  rw [request]
  rw [Option.getD_some, take_spent, mul_comm]
  exact min_le_right _ _

theorem refill_of_fits (rate now : K) (fits : b.tokens ≤ capacity) :
    (⟨b.tokens, now⟩ : Bucket K).refill capacity rate now = ⟨b.tokens, now⟩ := by
  simp [refill, fits]

/-- The first reading of a row fills the bucket, the others find it filled. -/
theorem request_refilled (b : Bucket K) (now : K) : request capacity rate (some b) now =
    request capacity rate (some (b.refill capacity rate now)) now := by
  simp only [request]
  have fits : (b.refill capacity rate now).tokens ≤ capacity := min_le_left _ _
  rw [Option.getD_some, Option.getD_some]
  exact congrArg take (refill_of_fits _ now fits).symm

/-- The tokens of a bucket stay between none and its capacity. -/
def Filled (capacity : K) (b : Bucket K) : Prop := 0 ≤ b.tokens ∧ b.tokens ≤ capacity

section Ordered
variable [IsStrictOrderedRing K]

theorem forward_nonneg (clock : List K) : 0 ≤ forward clock := by
  induction clock with
  | nil => exact le_refl _
  | cons x rest ih =>
    cases rest with
    | nil => exact le_refl _
    | cons y rest => exact add_nonneg (le_max_left _ _) ih

/-- A clock that never goes back goes forward by what its interval allows. -/
theorem forward_le_of_sorted {low high : K} (interval : low ≤ high) (sorted : clock.Pairwise (· ≤ ·))
    (within : ∀ now ∈ clock, low ≤ now ∧ now ≤ high) : forward clock ≤ high - low := by
  induction clock generalizing low with
  | nil => exact sub_nonneg.mpr interval
  | cons x rest ih =>
    obtain ⟨above, below⟩ := within x List.mem_cons_self
    obtain ⟨later, sorted⟩ := List.pairwise_cons.mp sorted
    cases rest with
    | nil => exact sub_nonneg.mpr interval
    | cons y rest =>
      have step := later y List.mem_cons_self
      have bounded := ih (within y (by simp)).2 sorted fun now member =>
        ⟨by
          rcases List.mem_cons.mp member with rfl | next
          · exact le_refl _
          · exact (List.pairwise_cons.mp sorted).1 now next, (within now (List.mem_cons_of_mem _ member)).2⟩
      simp only [forward, max_eq_right (sub_nonneg.mpr step)]
      linarith

theorem filled_request (room : 0 ≤ capacity) (positive : 0 ≤ rate) (filled : ∀ b ∈ known, Filled capacity b) :
    Filled capacity (request capacity rate known now).1 := by
  have full : Filled capacity (known.getD ⟨capacity, now⟩) := by
    cases known with
    | none => exact ⟨room, le_refl _⟩
    | some b => exact filled b rfl
  have gained : 0 ≤ max 0 (now - (known.getD ⟨capacity, now⟩).lastRefill) * rate :=
    mul_nonneg (le_max_left _ _) positive
  rw [request, take, refill]
  split
  · rename_i enough
    refine ⟨sub_nonneg.mpr enough, ?_⟩
    have most := min_le_left capacity
      ((known.getD ⟨capacity, now⟩).tokens + max 0 (now - (known.getD ⟨capacity, now⟩).lastRefill) * rate)
    simp only
    linarith
  · exact ⟨le_min room (add_nonneg full.1 gained), min_le_left _ _⟩

theorem filled_after (known : Option (Bucket K)) (room : 0 ≤ capacity) (positive : 0 ≤ rate)
    (filled : ∀ b ∈ known, Filled capacity b) (nows : List K) : ∀ b ∈ after capacity rate known nows, Filled capacity b := by
  induction nows generalizing known with
  | nil => exact filled
  | cons now rest ih =>
    apply ih
    rintro b ⟨⟩
    exact filled_request room positive filled

/-- No more requests pass than the tokens at hand and those that the clock's way forward earns. -/
theorem admitted_le (room : 0 ≤ capacity) (positive : 0 ≤ rate) (filled : Filled capacity b) (nows : List K) :
    (admitted capacity rate (some b) nows : K) ≤ b.tokens + rate * forward (b.lastRefill :: nows) := by
  induction nows generalizing b with
  | nil => simpa [admitted, forward] using filled.1
  | cons now rest ih =>
    have paid := request_potential capacity rate b now
    have left := ih (b := (request capacity rate (some b) now).1)
      (filled_request room positive fun _ same => Option.some.inj same ▸ filled)
    rw [request_lastRefill] at left
    simp only [admitted, forward, Nat.cast_add, Nat.cast_ite, Nat.cast_one, Nat.cast_zero]
    have total : rate * (max 0 (now - b.lastRefill) + forward (now :: rest)) =
        rate * max 0 (now - b.lastRefill) + rate * forward (now :: rest) := mul_add _ _ _
    linarith

theorem admitted_new_le (room : 0 ≤ capacity) (positive : 0 ≤ rate) (nows : List K) :
    (admitted capacity rate none nows : K) ≤ capacity + rate * forward nows := by
  cases nows with
  | nil => simpa [admitted, forward] using room
  | cons now rest =>
    -- the first request of a key finds the bucket filled at its own reading
    have same : admitted capacity rate none (now :: rest) =
        admitted capacity rate (some ⟨capacity, now⟩) (now :: rest) := rfl
    rw [same]
    have bound := admitted_le (b := ⟨capacity, now⟩) room positive ⟨room, le_refl _⟩ (now :: rest)
    simpa [forward] using bound

/-- A bucket in use admits no more than a full one. -/
theorem admitted_known_le (room : 0 ≤ capacity) (positive : 0 ≤ rate) (filled : ∀ b ∈ known, Filled capacity b)
    (nows : List K) : (admitted capacity rate known nows : K) ≤ capacity + rate * forward nows := by
  cases known with
  | none => exact admitted_new_le room positive nows
  | some b =>
    cases nows with
    | nil => simpa [admitted, forward] using room
    | cons now rest =>
      have refilled : admitted capacity rate (some b) (now :: rest) =
          admitted capacity rate (some (b.refill capacity rate now)) (now :: rest) := by
        simp only [admitted, ← request_refilled]
      have gained : 0 ≤ max 0 (now - b.lastRefill) * rate := mul_nonneg (le_max_left _ _) positive
      have full : Filled capacity (b.refill capacity rate now) :=
        ⟨le_min room (add_nonneg (filled b rfl).1 gained), min_le_left _ _⟩
      have bound := admitted_le room positive full (now :: rest)
      have stays : forward ((b.refill capacity rate now).lastRefill :: now :: rest) = forward (now :: rest) := by
        simp [refill, forward]
      rw [stays] at bound
      rw [refilled]
      exact bound.trans (add_le_add full.2 (le_refl _))

/-- Enough requests at one reading drain a bucket of whole tokens. -/
theorem drain (rate now : K) {tokens n : Nat} (within : (tokens : K) ≤ capacity) (enough : tokens ≤ n) :
    admitted capacity rate (some ⟨tokens, now⟩) (List.replicate n now) = tokens ∧
      after capacity rate (some ⟨tokens, now⟩) (List.replicate n now) = some ⟨0, now⟩ := by
  induction n generalizing tokens with
  | zero =>
    cases Nat.le_zero.mp enough
    exact ⟨rfl, by simp [after]⟩
  | succ n ih =>
    have still := refill_of_fits (b := (⟨tokens, now⟩ : Bucket K)) rate now within
    cases tokens with
    | zero =>
      have refused : request capacity rate (some ⟨(0 : Nat), now⟩) now = (⟨(0 : Nat), now⟩, false) := by
        rw [request]
        rw [Option.getD_some, still]
        exact if_neg (by simp)
      obtain ⟨count, empty⟩ := ih within (Nat.zero_le n)
      rw [List.replicate_succ]
      simp only [admitted, after, refused]
      exact ⟨by simpa using count, empty⟩
    | succ tokens =>
      have taken : request capacity rate (some ⟨(tokens + 1 : Nat), now⟩) now = (⟨(tokens : Nat), now⟩, true) := by
        rw [request]
        rw [Option.getD_some, still]
        have one_left : (1 : K) ≤ (tokens + 1 : Nat) := by simp
        rw [take, if_pos one_left]
        simp
      have less : ((tokens : Nat) : K) ≤ capacity := (Nat.cast_le.mpr (Nat.le_succ tokens)).trans within
      obtain ⟨count, empty⟩ := ih less (Nat.le_of_succ_le_succ enough)
      rw [List.replicate_succ]
      simp only [admitted, after, taken]
      exact ⟨by rw [count]; simp [Nat.add_comm], empty⟩

/-- The same of a bucket that the first reading fills that far. -/
theorem drain_refilled {tokens n : Nat} (filled : b.refill capacity rate now = ⟨tokens, now⟩)
    (within : (tokens : K) ≤ capacity) (enough : tokens ≤ n + 1) :
    admitted capacity rate (some b) (List.replicate (n + 1) now) = tokens ∧
      after capacity rate (some b) (List.replicate (n + 1) now) = some ⟨0, now⟩ := by
  obtain ⟨count, empty⟩ := drain rate now within enough
  rw [List.replicate_succ] at count empty ⊢
  simp only [admitted, after] at count empty ⊢
  rw [request_refilled, filled]
  exact ⟨count, empty⟩

/-- Requests in rounds, as many in each as the bucket holds. -/
def rounds (size : Nat) (period x : K) : Nat → List K
  | 0 => []
  | n + 1 => List.replicate size (x + period) ++ rounds size period (x + period) n

/-- A bucket that earns its capacity between two rounds lets all of them through. -/
theorem admitted_rounds {size : Nat} {period : K} (forwards : 0 ≤ period) (earned : period * rate = (size + 1 : Nat))
    (x : K) (n : Nat) : admitted ((size + 1 : Nat) : K) rate (some ⟨0, x⟩) (rounds (size + 1) period x n) =
      (size + 1) * n := by
  induction n generalizing x with
  | zero => rfl
  | succ n ih =>
    have filled : (⟨0, x⟩ : Bucket K).refill ((size + 1 : Nat) : K) rate (x + period) =
        ⟨((size + 1 : Nat) : K), x + period⟩ := by
      rw [refill, add_sub_cancel_left, max_eq_right forwards, earned, zero_add, min_self]
    obtain ⟨count, empty⟩ := drain_refilled filled (le_refl _) (le_refl _)
    rw [rounds, admitted_append, count, empty, ih, Nat.mul_succ, Nat.add_comm]

/-- The same of a new bucket. -/
theorem admitted_rounds_new {size : Nat} {period : K} (forwards : 0 ≤ period)
    (earned : period * rate = (size + 1 : Nat)) (x : K) (n : Nat) :
    admitted ((size + 1 : Nat) : K) rate none (rounds (size + 1) period (x - period) (n + 1)) = (size + 1) * (n + 1) := by
  obtain ⟨count, empty⟩ := drain rate x (le_refl ((size + 1 : Nat) : K)) (le_refl (size + 1))
  have first : admitted ((size + 1 : Nat) : K) rate none (List.replicate (size + 1) x) = size + 1 := count
  have emptied : after ((size + 1 : Nat) : K) rate none (List.replicate (size + 1) x) = some ⟨0, x⟩ := empty
  rw [rounds, sub_add_cancel, admitted_append, first, emptied, admitted_rounds forwards earned, Nat.mul_succ,
    Nat.add_comm]

end Ordered

/-! ### Whole tokens

A bucket that is refilled by whole tokens only, one for each interval, and leaves the time
that is over to the next refill. -/

section Whole
variable {F : Type*} [Field F] [LinearOrder F] {capacity interval now s t x : F} {b : Bucket F}
  {known : Option (Bucket F)} {nows : List F}

/-- The tokens of a bucket, with the part of one that is under way. -/
def Bucket.level (interval now : F) (b : Bucket F) : F := b.tokens + (now - b.lastRefill) / interval

/-- A bucket within its capacity, of a time that has come. -/
structure Sound (capacity now : F) (b : Bucket F) : Prop where
  filled : Filled capacity b
  past : b.lastRefill ≤ now

theorem take_level (b : Bucket F) :
    (if b.take.2 then 1 else 0) + b.take.1.level interval now = b.level interval now := by
  simp only [Bucket.take, Bucket.level]
  by_cases enough : 1 ≤ b.tokens
  · simp only [enough, if_true]
    ring
  · simp [enough]

theorem take_lastRefill (b : Bucket F) : b.take.1.lastRefill = b.lastRefill := by
  rw [Bucket.take]
  split <;> rfl

omit [LinearOrder F] in
theorem level_later (b : Bucket F) (interval x now : F) :
    b.level interval now = b.level interval x + (now - x) / interval := by
  simp only [Bucket.level]
  rw [add_assoc, ← add_div]
  ring

theorem Sound.later (sound : Sound capacity x b) (later : x ≤ now) : Sound capacity now b :=
  ⟨sound.filled, sound.past.trans later⟩

theorem sound_getD (room : 0 ≤ capacity) (sound : ∀ b ∈ known, Sound capacity now b) :
    Sound capacity now (known.getD ⟨capacity, now⟩) := by
  cases known with
  | none => exact ⟨⟨room, le_refl _⟩, le_refl _⟩
  | some b => exact sound b rfl

section
variable [IsStrictOrderedRing F]

theorem Filled.take (filled : Filled capacity b) : Filled capacity b.take.1 := by
  rw [Bucket.take]
  split
  · rename_i enough
    exact ⟨sub_nonneg.mpr enough, (sub_le_self _ zero_le_one).trans filled.2⟩
  · exact filled

theorem Sound.level_nonneg (sound : Sound capacity now b) (positive : 0 < interval) : 0 ≤ b.level interval now :=
  add_nonneg sound.filled.1 (div_nonneg (sub_nonneg.mpr sound.past) positive.le)

end

variable [FloorRing F]

def Bucket.refillWhole (capacity interval now : F) (b : Bucket F) : Bucket F :=
  let gained := ⌊(now - b.lastRefill) / interval⌋
  if 0 < gained then ⟨min capacity (b.tokens + gained), b.lastRefill + gained * interval⟩ else b

def requestWhole (capacity interval : F) (known : Option (Bucket F)) (now : F) : Bucket F × Bool :=
  ((known.getD ⟨capacity, now⟩).refillWhole capacity interval now).take

/-- The number of requests that a bucket lets through between two times. -/
def admittedWithin (s t capacity interval : F) (known : Option (Bucket F)) : List F → Nat
  | [] => 0
  | now :: rest =>
    let (b, allowed) := requestWhole capacity interval known now
    (if allowed ∧ s ≤ now ∧ now ≤ t then 1 else 0) + admittedWithin s t capacity interval (some b) rest

theorem admittedWithin_of_gt (known : Option (Bucket F)) (late : ∀ now ∈ nows, t < now) :
    admittedWithin s t capacity interval known nows = 0 := by
  induction nows generalizing known with
  | nil => rfl
  | cons now rest ih =>
    obtain ⟨here, later⟩ := List.forall_mem_cons.mp late
    simp only [admittedWithin, ih _ later, not_le.mpr here, and_false, if_false]

variable [IsStrictOrderedRing F]

/-- A refill takes no token away that is under way, and leaves less than one under way. -/
theorem refillWhole_spec (sound : Sound capacity now b) (positive : 0 < interval) :
    let r := b.refillWhole capacity interval now
    Sound capacity now r ∧ b.lastRefill ≤ r.lastRefill ∧ r.level interval now ≤ b.level interval now ∧
      r.level interval now < capacity + 1 := by
  obtain ⟨⟨nonneg, most⟩, past⟩ := sound
  have under := Int.floor_le ((now - b.lastRefill) / interval)
  have above := Int.lt_floor_add_one ((now - b.lastRefill) / interval)
  unfold Bucket.refillWhole Bucket.level
  dsimp only
  split
  · rename_i some_gained
    have gained : (0 : F) < ⌊(now - b.lastRefill) / interval⌋ := by exact_mod_cast some_gained
    have time := (le_div_iff₀ positive).mp under
    have left : (now - (b.lastRefill + ⌊(now - b.lastRefill) / interval⌋ * interval)) / interval =
        (now - b.lastRefill) / interval - ⌊(now - b.lastRefill) / interval⌋ := by
      field_simp
      ring
    have room := min_le_left capacity (b.tokens + ⌊(now - b.lastRefill) / interval⌋)
    have paid := min_le_right capacity (b.tokens + ⌊(now - b.lastRefill) / interval⌋)
    refine ⟨⟨⟨le_min (nonneg.trans most) (by linarith), room⟩, by dsimp only; linarith⟩, ?_, ?_, ?_⟩
    · exact le_add_of_nonneg_right (mul_nonneg gained.le positive.le)
    · rw [left]
      linarith
    · rw [left]
      linarith
  · rename_i none_gained
    have whole : (⌊(now - b.lastRefill) / interval⌋ : F) ≤ 0 := by exact_mod_cast not_lt.mp none_gained
    exact ⟨⟨⟨nonneg, most⟩, past⟩, le_refl _, le_refl _, by linarith⟩

theorem sound_requestWhole (room : 0 ≤ capacity) (positive : 0 < interval) (sound : ∀ b ∈ known, Sound capacity now b) :
    Sound capacity now (requestWhole capacity interval known now).1 ∧
      ∀ b ∈ known, b.lastRefill ≤ (requestWhole capacity interval known now).1.lastRefill := by
  obtain ⟨refilled, forward, -, -⟩ := refillWhole_spec (sound_getD room sound) positive
  rw [requestWhole]
  rw [take_lastRefill]
  refine ⟨⟨refilled.filled.take, (take_lastRefill _).le.trans refilled.past⟩, ?_⟩
  rintro b ⟨⟩
  exact forward

theorem requestWhole_level (room : 0 ≤ capacity) (positive : 0 < interval)
    (sound : ∀ b ∈ known, Sound capacity now b) :
    (if (requestWhole capacity interval known now).2 then 1 else 0) +
        (requestWhole capacity interval known now).1.level interval now < capacity + 1 ∧
      ∀ b ∈ known, (if (requestWhole capacity interval known now).2 then 1 else 0) +
        (requestWhole capacity interval known now).1.level interval now ≤ b.level interval now := by
  obtain ⟨-, -, less, capped⟩ := refillWhole_spec (sound_getD room sound) positive
  rw [requestWhole]
  rw [take_level]
  refine ⟨capped, ?_⟩
  rintro b ⟨⟩
  exact less

/-- From some time on no more requests pass than the level of the bucket and what the time brings. -/
theorem admittedWithin_le_level (room : 0 ≤ capacity) (positive : 0 < interval) (sound : Sound capacity x b)
    (sorted : (x :: nows).Pairwise (· ≤ ·)) (within : x ≤ t) :
    (admittedWithin s t capacity interval (some b) nows : F) ≤ b.level interval x + (t - x) / interval := by
  induction nows generalizing b x with
  | nil =>
    rw [admittedWithin, Nat.cast_zero, ← level_later b interval x t]
    exact (sound.later within).level_nonneg positive
  | cons now rest ih =>
    obtain ⟨after, sorted⟩ := List.pairwise_cons.mp sorted
    have later := after now List.mem_cons_self
    rcases le_or_gt now t with inside | outside
    · have known : ∀ old ∈ some b, Sound capacity now old := fun old same =>
        Option.some.inj same ▸ sound.later later
      have paid := (requestWhole_level room positive known).2 b rfl
      have left := ih (sound_requestWhole room positive known).1 sorted inside
      rw [level_later b interval x now] at paid
      have counted : ((if (requestWhole capacity interval (some b) now).2 ∧ s ≤ now ∧ now ≤ t then 1 else 0 : Nat) : F) ≤
          if (requestWhole capacity interval (some b) now).2 then 1 else 0 := by
        split
        · rename_i both
          rw [if_pos both.1, Nat.cast_one]
        · rw [Nat.cast_zero]
          split
          · exact zero_le_one
          · exact le_refl _
      have time : (t - x) / interval = (now - x) / interval + (t - now) / interval := by
        rw [← add_div]
        ring
      simp only [admittedWithin, Nat.cast_add]
      linarith
    · rw [admittedWithin_of_gt]
      · rw [Nat.cast_zero, ← level_later b interval x t]
        exact (sound.later within).level_nonneg positive
      · intro other member
        rcases List.mem_cons.mp member with rfl | further
        · exact outside
        · exact outside.trans_le ((List.pairwise_cons.mp sorted).1 other further)

/-- Between two times pass at most a full bucket, one token under way and what the time brings. -/
theorem admittedWithin_le (room : 0 ≤ capacity) (positive : 0 < interval) (window : s ≤ t)
    (sound : ∀ b ∈ known, ∀ now ∈ nows, Sound capacity now b) (sorted : nows.Pairwise (· ≤ ·)) :
    (admittedWithin s t capacity interval known nows : F) ≤ capacity + (t - s) / interval + 1 := by
  induction nows generalizing known with
  | nil =>
    rw [admittedWithin, Nat.cast_zero]
    have time := div_nonneg (sub_nonneg.mpr window) positive.le
    linarith
  | cons now rest ih =>
    have here : ∀ b ∈ known, Sound capacity now b := fun b member => sound b member now List.mem_cons_self
    obtain ⟨after, later⟩ := List.pairwise_cons.mp sorted
    have next := (sound_requestWhole room positive here).1
    rcases lt_or_ge now s with before | inside
    · have following : ∀ b ∈ some (requestWhole capacity interval known now).1, ∀ x ∈ rest, Sound capacity x b :=
        fun b same x member => Option.some.inj same ▸ next.later (after x member)
      have skipped := ih following later
      simpa [admittedWithin, not_le.mpr before] using skipped
    · rcases le_or_gt now t with within | outside
      · have paid := (requestWhole_level room positive here).1
        have left := admittedWithin_le_level (s := s) room positive next sorted within
        have time : (t - now) / interval ≤ (t - s) / interval :=
          div_le_div_of_nonneg_right (sub_le_sub_left inside t) positive.le
        simp only [admittedWithin, inside, within, and_true, Nat.cast_add, Nat.cast_ite, Nat.cast_one, Nat.cast_zero]
        linarith
      · rw [admittedWithin_of_gt]
        · rw [Nat.cast_zero]
          have time := div_nonneg (sub_nonneg.mpr window) positive.le
          linarith
        · intro other member
          rcases List.mem_cons.mp member with rfl | further
          · exact outside
          · exact outside.trans_le (after other further)

end Whole

end TokenBucket
