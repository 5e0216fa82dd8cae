import Octraban.Core.OrderedMap
import Mathlib.Algebra.BigOperators.Fin
import Mathlib.Algebra.Order.Ring.Unbundled.Rat
import Mathlib.Data.Rat.Lemmas

/-! rpcProviderPool.js: a call draws a provider by its health score and goes over to the others
that it has not tried yet. Providers are known by their place in the list. -/
namespace Octraban.RpcProviderPool
open Ordered

structure Config where
  WINDOW_SIZE : Nat
  CALL_TIMEOUT_MS : Nat

structure RpcProvider where
  url : String
  outcomes : List Bool
  latencies : List Int
  healthy : Bool
  latestLedger : Int

structure RpcResult where
  latestLedger : Option Int
  sequence : Option Int

variable (config : Config)

/-- A push, and a shift once the window is full. -/
def slide {α : Type} (window : List α) (value : α) : List α :=
  if (window ++ [value]).length > config.WINDOW_SIZE then (window ++ [value]).tail else window ++ [value]

namespace RpcProvider

def recordOutcome (provider : RpcProvider) (success : Bool) (latencyMs : Int) : RpcProvider :=
  { provider with
    outcomes := slide config provider.outcomes success
    latencies := slide config provider.latencies latencyMs }

def uptime (provider : RpcProvider) : ℚ :=
  if provider.outcomes.length = 0 then 1 else provider.outcomes.count true / provider.outcomes.length

def avgLatency (provider : RpcProvider) : ℚ :=
  if provider.latencies.length = 0 then 0 else provider.latencies.sum / provider.latencies.length

def errorRate (provider : RpcProvider) : ℚ := 1 - provider.uptime

def healthScore (provider : RpcProvider) : ℚ :=
  let latencyScore := max 0 (1 - provider.avgLatency / config.CALL_TIMEOUT_MS)
  provider.uptime * (5 / 10) + latencyScore * (3 / 10) + (1 - provider.errorRate) * (2 / 10)

def weight (provider : RpcProvider) : ℚ := max (1 / 100) (provider.healthScore config)

end RpcProvider

variable {n : Nat}

abbrev Pool (n : Nat) := Fin n → RpcProvider

/-- The first candidate at which the roll is used up. -/
def pick (pool : Pool n) : ℚ → List (Fin n) → Option (Fin n)
  | _, [] => none
  | roll, p :: rest =>
    let roll := roll - (pool p).weight config
    if roll ≤ 0 then some p else pick pool roll rest

/-- The draw may be any number, so that every rounding of the scores is covered. -/
def selectProvider (pool : Pool n) (random : ℚ) (first : Fin n) : Fin n :=
  let candidates := (List.finRange n).filter fun p => (pool p).healthy
  match candidates.getLast? with
  | none => first
  | some last =>
    let totalScore := (candidates.map fun p => (pool p).weight config).sum
    (pick config pool (random * totalScore) candidates).getD last

def selectTarget (pool : Pool n) (tried : List String) (random : ℚ) (first : Fin n) : Option (Fin n) :=
  let candidate := selectProvider config pool random first
  if (pool candidate).url ∉ tried then some candidate
  else (List.finRange n).find? fun p => (pool p).url ∉ tried

def learn (provider : RpcProvider) (result : RpcResult) : RpcProvider :=
  match result.latestLedger <|> result.sequence with
  | some ledger => if ledger = 0 then provider else { provider with latestLedger := ledger }
  | none => provider

def succeeded (pool : Pool n) (p : Fin n) (result : RpcResult) (latency : Int) : Pool n :=
  Function.update pool p { learn ((pool p).recordOutcome config true latency) result with healthy := true }

def failed (pool : Pool n) (p : Fin n) (latency : Int) : Pool n :=
  let provider := (pool p).recordOutcome config false latency
  Function.update pool p (if provider.errorRate ≥ 1 / 2 then { provider with healthy := false } else provider)

/-- What other calls and the recovery probe do to the pool. -/
inductive Meanwhile (n : Nat) where
  | succeeded (p : Fin n) (result : RpcResult) (latency : Int)
  | failed (p : Fin n) (latency : Int)
  | recovered (p : Fin n) (sequence : Int) (latency : Int)
  | stillDown (p : Fin n) (latency : Int)

def Meanwhile.apply (pool : Pool n) : Meanwhile n → Pool n
  | .succeeded p result latency => RpcProviderPool.succeeded config pool p result latency
  | .failed p latency => RpcProviderPool.failed config pool p latency
  | .recovered p sequence latency =>
    let provider := { pool p with latestLedger := sequence }.recordOutcome config true latency
    Function.update pool p { provider with healthy := true }
  | .stillDown p latency => Function.update pool p ((pool p).recordOutcome config false latency)

/-- What one attempt meets: a draw, what happens to the pool while the request is out, and how it
ends. A timeout fails as an error does. -/
structure Turn (n : Nat) where
  random : ℚ
  meanwhile : List (Meanwhile n)
  answer : Option RpcResult
  latency : Int

/-- A call with its requests and the pools that it has gone through; without a result it throws. -/
structure Invocation (n : Nat) where
  requests : List (Fin n × Option RpcResult)
  pools : List (Pool n)
  result : Option RpcResult

def Invocation.after (request : Fin n × Option RpcResult) (pools : List (Pool n)) (rest : Invocation n) : Invocation n :=
  { rest with requests := request :: rest.requests, pools := pools ++ rest.pools }

/-- The loop, for at most `fuel` turns. -/
def attempts : (fuel : Nat) → (turns : Nat → Turn n) → Pool n → (tried : List String) → Option (Invocation n)
  | 0, _, _, _ => none
  | fuel + 1, turns, pool, tried =>
    if more : tried.length < n then
      match selectTarget config pool tried (turns 0).random ⟨0, tried.length.zero_le.trans_lt more⟩ with
      | none => some ⟨[], [pool], none⟩
      | some target =>
        let tried := add tried (pool target).url
        let waited := (turns 0).meanwhile.foldl (Meanwhile.apply config) pool
        match (turns 0).answer with
        | some result =>
          let pool' := succeeded config waited target result (turns 0).latency
          some ⟨[(target, some result)], [pool, waited, pool'], some result⟩
        | none =>
          let pool' := failed config waited target (turns 0).latency
          (attempts fuel (fun i => turns (i + 1)) pool' tried).map (.after (target, none) [pool, waited])
    else some ⟨[], [pool], none⟩

/-- One turn for each provider, and one that finds them all tried. -/
def call (turns : Nat → Turn n) (pool : Pool n) : Option (Invocation n) := attempts config (n + 1) turns pool []

/-! ### What a call has done -/

/-- As many outcomes as latencies, and no more than the window holds. -/
def RpcProvider.Windowed (provider : RpcProvider) : Prop :=
  provider.outcomes.length = provider.latencies.length ∧ provider.outcomes.length ≤ config.WINDOW_SIZE

/-- No provider is asked twice, and the requests end as the turns say; the first success is returned,
and a call without one has asked every provider. -/
structure FailsOver (turns : Nat → Turn n) (run : Invocation n) : Prop where
  once : (run.requests.map Prod.fst).Nodup
  answers : ∀ i request, run.requests[i]? = some request → request.2 = (turns i).answer
  first : ∀ result, run.result = some result →
    ∃ before p, run.requests = before ++ [(p, some result)] ∧ ∀ request ∈ before, request.2 = none
  exhausted : run.result = none → ∀ p, (p, none) ∈ run.requests
  windowed : ∀ pool ∈ run.pools, ∀ p, (pool p).Windowed config

variable {config} {url : Fin n → String} {pool : Pool n} {turns : Nat → Turn n} {past : List (Fin n)}

theorem length_slide {α : Type} (window : List α) (value : α) :
    (slide config window value).length =
      if window.length + 1 > config.WINDOW_SIZE then window.length else window.length + 1 := by
  simp only [slide, List.length_append, List.length_singleton]
  split <;> simp

theorem RpcProvider.Windowed.recordOutcome {provider : RpcProvider} (windowed : provider.Windowed config)
    (success : Bool) (latencyMs : Int) : (provider.recordOutcome config success latencyMs).Windowed config := by
  obtain ⟨same, fits⟩ := windowed
  constructor
  · simp only [RpcProvider.recordOutcome, length_slide, same]
  · simp only [RpcProvider.recordOutcome, length_slide]
    split <;> omega

/-- The providers have their addresses, and their windows are kept. -/
def Sound (config : Config) (url : Fin n → String) (pool : Pool n) : Prop :=
  ∀ p, (pool p).url = url p ∧ (pool p).Windowed config

theorem Sound.update (sound : Sound config url pool) {p : Fin n} {provider : RpcProvider}
    (named : provider.url = (pool p).url) (windowed : provider.Windowed config) :
    Sound config url (Function.update pool p provider) := by
  intro q
  by_cases same : q = p
  · subst same
    rw [Function.update_self]
    exact ⟨named.trans (sound q).1, windowed⟩
  · rw [Function.update_of_ne same]
    exact sound q

theorem learn_url (provider : RpcProvider) (result : RpcResult) : (learn provider result).url = provider.url := by
  simp only [learn]
  split
  · split <;> rfl
  · rfl

theorem Windowed.learn {provider : RpcProvider} (windowed : provider.Windowed config) (result : RpcResult) :
    (learn provider result).Windowed config := by
  simp only [RpcProviderPool.learn]
  split
  · split <;> exact windowed
  · exact windowed

theorem Sound.succeeded (sound : Sound config url pool) (p : Fin n) (result : RpcResult) (latency : Int) :
    Sound config url (succeeded config pool p result latency) := by
  have recorded := (sound p).2.recordOutcome true latency
  exact sound.update (learn_url _ result) (Windowed.learn recorded result)

theorem Sound.failed (sound : Sound config url pool) (p : Fin n) (latency : Int) :
    Sound config url (failed config pool p latency) := by
  have recorded := (sound p).2.recordOutcome false latency
  refine sound.update ?_ ?_
  · split <;> rfl
  · split <;> exact recorded

theorem Sound.apply (sound : Sound config url pool) (other : Meanwhile n) : Sound config url (other.apply config pool) := by
  cases other with
  | succeeded p result latency => exact sound.succeeded p result latency
  | failed p latency => exact sound.failed p latency
  | recovered p sequence latency => exact sound.update rfl ((sound p).2.recordOutcome true latency)
  | stillDown p latency => exact sound.update rfl ((sound p).2.recordOutcome false latency)

theorem Sound.wait (sound : Sound config url pool) (others : List (Meanwhile n)) :
    Sound config url (others.foldl (Meanwhile.apply config) pool) := by
  induction others generalizing pool with
  | nil => exact sound
  | cons other others ih => exact ih (sound.apply other)

/-- As long as a provider is left, an untried one is selected, whatever the draw. -/
theorem selectTarget_untried (sound : Sound config url pool) (left : ∃ p, p ∉ past)
    (distinct : Function.Injective url) (random : ℚ) (first : Fin n) :
    ∃ target, selectTarget config pool (past.map url) random first = some target ∧ target ∉ past := by
  have untried (p : Fin n) : (pool p).url ∉ past.map url ↔ p ∉ past := by
    rw [(sound p).1, List.mem_map_of_injective distinct]
  simp only [selectTarget, untried]
  split
  · rename_i fresh
    exact ⟨_, rfl, fresh⟩
  · obtain ⟨p, unasked⟩ := left
    have some : ((List.finRange n).find? fun p => p ∉ past).isSome :=
      List.find?_isSome.mpr ⟨p, List.mem_finRange p, decide_eq_true unasked⟩
    obtain ⟨target, found⟩ := Option.isSome_iff_exists.mp some
    exact ⟨target, found, by simpa using List.find?_some found⟩

/-- What the rest of a call does once some providers have been tried. -/
structure Continues (config : Config) (past : List (Fin n)) (turns : Nat → Turn n) (run : Invocation n) : Prop where
  once : (past ++ run.requests.map Prod.fst).Nodup
  answers : ∀ i request, run.requests[i]? = some request → request.2 = (turns i).answer
  first : ∀ result, run.result = some result →
    ∃ before p, run.requests = before ++ [(p, some result)] ∧ ∀ request ∈ before, request.2 = none
  exhausted : run.result = none → ∀ p, p ∈ past ∨ (p, none) ∈ run.requests
  windowed : ∀ pool ∈ run.pools, ∀ p, (pool p).Windowed config

theorem Continues.after {target : Fin n} {pools : List (Pool n)} {run : Invocation n}
    (continues : Continues config (past ++ [target]) (fun i => turns (i + 1)) run)
    (unanswered : (turns 0).answer = none) (windowed : ∀ pool ∈ pools, ∀ p, (pool p).Windowed config) :
    Continues config past turns (run.after (target, none) pools) where
  once := by
    have once := continues.once
    rwa [List.append_assoc] at once
  answers i request found := by
    cases i with
    | zero =>
      obtain rfl := Option.some.inj found
      exact unanswered.symm
    | succ i => exact continues.answers i request found
  first result returned := by
    obtain ⟨before, p, split, failures⟩ := continues.first result returned
    refine ⟨(target, none) :: before, p, congrArg _ split, ?_⟩
    exact List.forall_mem_cons.mpr ⟨rfl, failures⟩
  exhausted thrown p := by
    obtain tried | asked := continues.exhausted thrown p
    · obtain earlier | last := List.mem_append.mp tried
      · exact .inl earlier
      · obtain rfl := List.mem_singleton.mp last
        exact .inr List.mem_cons_self
    · exact .inr (List.mem_cons_of_mem _ asked)
  windowed pool member := (List.mem_append.mp member).elim (windowed pool) (continues.windowed pool)

theorem exists_untried (fewer : past.length < n) : ∃ p, p ∉ past := by
  have less : past.toFinset.card < (Finset.univ : Finset (Fin n)).card := by
    rw [Finset.card_univ, Fintype.card_fin]
    exact past.toFinset_card_le.trans_lt fewer
  obtain ⟨p, _, unasked⟩ := Finset.exists_mem_notMem_of_card_lt_card less
  exact ⟨p, fun member => unasked (List.mem_toFinset.mpr member)⟩

theorem all_tried (nodup : past.Nodup) (enough : n ≤ past.length) (p : Fin n) : p ∈ past := by
  have all : past.toFinset = Finset.univ := by
    refine Finset.eq_univ_of_card _ (le_antisymm (Finset.card_le_univ _) ?_)
    rw [Fintype.card_fin, List.toFinset_card_of_nodup nodup]
    exact enough
  exact List.mem_toFinset.mp (all ▸ Finset.mem_univ p)

theorem attempts_continue (distinct : Function.Injective url) (fuel : Nat) (turns : Nat → Turn n)
    (past : List (Fin n)) (sound : Sound config url pool)
    (nodup : past.Nodup) (enough : n < fuel + past.length) :
    ∃ run, attempts config fuel turns pool (past.map url) = some run ∧ Continues config past turns run := by
  induction fuel generalizing turns pool past with
  | zero => exact absurd nodup.length_le_card (by simpa using enough)
  | succ fuel ih =>
    simp only [attempts]
    split
    · rename_i more
      have left : ∃ p, p ∉ past := exists_untried (by simpa using more)
      obtain ⟨target, selected, untried⟩ := selectTarget_untried sound left distinct (turns 0).random ⟨0, by omega⟩
      have fresh : url target ∉ past.map url := by rwa [List.mem_map_of_injective distinct]
      have tried : add (past.map url) (pool target).url = (past ++ [target]).map url := by
        rw [(sound target).1, add, if_neg fresh, List.map_append, List.map_singleton]
      have waited := sound.wait (turns 0).meanwhile
      have once : (past ++ [target]).Nodup :=
        nodup.append (List.nodup_singleton target) (List.disjoint_singleton.mpr untried)
      have kept : ∀ state ∈ [pool, (turns 0).meanwhile.foldl (Meanwhile.apply config) pool], ∀ p,
          (state p).Windowed config := by
        simp only [List.forall_mem_cons, List.not_mem_nil, false_implies, implies_true, and_true]
        exact ⟨fun p => (sound p).2, fun p => (waited p).2⟩
      rw [selected]
      dsimp only
      cases answered : (turns 0).answer with
      | some result =>
        refine ⟨_, rfl, ?_⟩
        have ended := waited.succeeded target result (turns 0).latency
        exact {
          once := once
          answers := fun i request found => by
            cases i with
            | zero =>
              obtain rfl := Option.some.inj found
              exact answered.symm
            | succ i => cases found
          first := by
            intro returned same
            refine ⟨[], target, ?_, fun _ impossible => by cases impossible⟩
            rw [Option.some.inj same]
            rfl
          exhausted := fun impossible => by cases impossible
          windowed := by
            intro state member
            obtain early | last := List.mem_append.mp (show state ∈ [pool, _] ++ [_] from member)
            · exact kept state early
            · rw [List.mem_singleton.mp last]
              exact fun p => (ended p).2 }
      | none =>
        have next := waited.failed target (turns 0).latency
        obtain ⟨run, ran, continues⟩ := ih (fun i => turns (i + 1)) (past ++ [target]) next once (by simp; omega)
        rw [tried, ran]
        exact ⟨_, rfl, continues.after answered kept⟩
    · rename_i enough
      refine ⟨_, rfl, ?_⟩
      exact {
        once := by simpa using nodup
        answers := fun i request found => by cases found
        first := fun _ impossible => by cases impossible
        exhausted := fun _ p => .inl (all_tried nodup (by simpa using enough) p)
        windowed := by
          intro state member
          rw [List.mem_singleton.mp member]
          exact fun p => (sound p).2 }

/-- Whatever the health of the providers, the draws and the answers, and whatever other calls do in
between, a call ends, asks no provider twice, returns the first success, throws only when all have
failed, and keeps the windows. -/
theorem call_fails_over (turns : Nat → Turn n) (distinct : Function.Injective fun p => (pool p).url)
    (windowed : ∀ p, (pool p).Windowed config) :
    ∃ run, call config turns pool = some run ∧ FailsOver config turns run := by
  have sound : Sound config (fun p => (pool p).url) pool := fun p => ⟨rfl, windowed p⟩
  obtain ⟨run, ran, continues⟩ := attempts_continue distinct (n + 1) turns [] sound List.nodup_nil (by simp)
  refine ⟨run, ran, continues.once, continues.answers, continues.first, ?_, continues.windowed⟩
  exact fun thrown p => (continues.exhausted thrown p).resolve_left List.not_mem_nil

/-- Two providers that have not been called yet, the second marked unhealthy. -/
def twoProviders : Pool 2 := fun p => ⟨if p = 0 then "http://a" else "http://b", [], [], p = 0, 0⟩

theorem call_fails_over_twoProviders :
    ∃ run, call ⟨20, 1000⟩ (fun _ => ⟨1 / 2, [], none, 5⟩) twoProviders = some run ∧
      FailsOver ⟨20, 1000⟩ (fun _ => ⟨1 / 2, [], none, 5⟩) run :=
  call_fails_over _ (by decide) fun _ => ⟨rfl, Nat.zero_le _⟩

end Octraban.RpcProviderPool
