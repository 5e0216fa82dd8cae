import Octraban.Api.ApiKeys

/-! concurrentLimiter.js: one Redis counter for the requests of a client. A request counts
itself on its way in and takes itself off when its response finishes; every command may
fail, and Redis may drop a counter at any moment, whatever is left of its time to live. -/
namespace Octraban.Concurrency
open ApiKeys

def httpTierLimits : Tier → Nat
  | .unauthenticated => 5
  | .free => 20
  | .pro => 100
  | .enterprise => 200

def wsTierLimits : Tier → Nat
  | .unauthenticated => 1
  | .free => 5
  | .pro => 25
  | .enterprise => 50

def isWebSocket (upgrade : Option String) : Bool :=
  upgrade.any fun upgrade => upgrade.toList.map Char.toLower = "websocket".toList

def getConcLimit (tier : Tier) (ws : Bool) : Nat := if ws then wsTierLimits tier else httpTierLimits tier

def redisKeyOf (clientId : String) (ws : Bool) : String := (if ws then "conc:ws" else "conc") ++ ":" ++ clientId

/-- What a request saw at its INCR: the count it got, and behind it the other holds, and the
leaked and the forgotten ones. -/
structure Seen where
  count : Int
  others : Nat
  leaked : Nat
  forgotten : Nat
  deriving DecidableEq

/-- What a request awaits. `counted` and `passed` requests are admitted and in flight, the
former with a listener for `finish`. -/
inductive Pending where
  | client
  | incr
  | expire (seen : Seen)
  | decr (seen : Seen)
  | counted
  | passed
  | finishClient
  | finishDecr
  | ended
  deriving DecidableEq

/-- Between its INCR and its last chance of a DECR. -/
def Pending.holds : Pending → Bool
  | expire _ | decr _ | counted | finishClient | finishDecr => true
  | client | incr | passed | ended => false

structure Request where
  redisKey : String
  limit : Nat
  pending : Pending

/-- The 503 of a request. -/
structure Refusal where
  retryAfter : String
  error : String
  redisKey : String
  limit : Nat
  seen : Seen

/-- Since a counter was last dropped, `leaked` counts the holds that ended with no DECR;
`forgotten` are the holds of that moment. -/
structure State where
  counters : String → Option Int
  requests : List Request
  refusals : List Refusal
  leaked : String → Nat
  forgotten : String → Nat

def State.holding (s : State) (key : String) : Nat :=
  s.requests.countP fun r => r.redisKey = key && r.pending.holds

def State.counter (s : State) (key : String) : Int := (s.counters key).getD 0

/-- INCR by 1 and DECR by -1; a missing key counts from 0. -/
def State.incrBy (s : State) (key : String) (n : Int) : State :=
  { s with counters := Function.update s.counters key (some (s.counter key + n)) }

def State.leak (s : State) (key : String) : State :=
  { s with leaked := Function.update s.leaked key (s.leaked key + 1) }

/-- A command that fails may have been executed. -/
inductive Reply where
  | ok
  | error (executed : Bool)

/-- The DECR of a hold, as far as it takes place. -/
def State.release (s : State) (key : String) : Reply → State
  | .ok | .error true => s.incrBy key (-1)
  | .error false => s.leak key

def State.see (s : State) (key : String) : Seen :=
  ⟨s.counter key + 1, s.holding key, s.leaked key, s.forgotten key⟩

/-- The middleware and its `finish` listener from one await to the next. `.error` of a client
stands for one that is not ready too. -/
def resume (s : State) (r : Request) (reply : Reply) : State × Pending :=
  match r.pending with
  | .client =>
    match reply with
    | .ok => (s, .incr)
    | .error _ => (s, .passed)
  | .incr =>
    match reply with
    | .ok => (s.incrBy r.redisKey 1, .expire (s.see r.redisKey))
    | .error true => ((s.incrBy r.redisKey 1).leak r.redisKey, .passed)
    | .error false => (s, .passed)
  | .expire seen =>
    match reply with
    | .ok => (s, if seen.count > r.limit then .decr seen else .counted)
    | .error _ => (s.leak r.redisKey, .passed)
  | .decr seen =>
    let t := s.release r.redisKey reply
    ({ t with refusals := ⟨"1", "Too many concurrent requests", r.redisKey, r.limit, seen⟩ :: t.refusals }, .ended)
  | .finishClient =>
    match reply with
    | .ok => (s, .finishDecr)
    | .error _ => (s.leak r.redisKey, .ended)
  | .finishDecr => (s.release r.redisKey reply, .ended)
  | .counted => (s, .counted)
  | .passed => (s, .passed)
  | .ended => (s, .ended)

/-- The response finishes. -/
def finish (s : State) (r : Request) : State × Pending :=
  match r.pending with
  | .counted => (s, .finishClient)
  | .passed => (s, .ended)
  | pending => (s, pending)

/-- The peer goes away and `finish` never comes. Before a request is admitted nothing looks at it. -/
def close (s : State) (r : Request) : State × Pending :=
  match r.pending with
  | .counted => (s.leak r.redisKey, .ended)
  | .passed => (s, .ended)
  | pending => (s, pending)

def concurrentRequestLimiter (s : State) (rateContext : Option RateContext) (upgrade : Option String) : State :=
  let clientId := rateContext.elim "unknown" (·.clientId)
  let tier := rateContext.elim .unauthenticated (·.tier)
  let ws := isWebSocket upgrade
  { s with requests := s.requests ++ [⟨redisKeyOf clientId ws, getConcLimit tier ws, .client⟩] }

inductive Act where
  | request (rateContext : Option RateContext) (upgrade : Option String)
  | resume (k : Nat) (reply : Reply)
  | finish (k : Nat)
  | close (k : Nat)
  | expire (key : String)

def State.move (s : State) (k : Nat) (f : State → Request → State × Pending) : Option State :=
  s.requests[k]?.map fun r =>
    let (t, next) := f s r
    { t with requests := s.requests.set k { r with pending := next } }

def step (s : State) : Act → Option State
  | .request rateContext upgrade => some (concurrentRequestLimiter s rateContext upgrade)
  | .resume k reply => s.move k fun s r => Concurrency.resume s r reply
  | .finish k => s.move k Concurrency.finish
  | .close k => s.move k Concurrency.close
  | .expire key => some { s with
      counters := Function.update s.counters key none
      leaked := Function.update s.leaked key 0
      forgotten := Function.update s.forgotten key (s.holding key) }

def idle : State := ⟨fun _ => none, [], [], fun _ => 0, fun _ => 0⟩

def system : Transition.System State Act where
  initial s := s = idle
  step := step

/-- The admitted requests in flight, whether counted or let pass. -/
def State.inFlight (s : State) (key : String) : Nat :=
  s.requests.countP fun r => r.redisKey = key && (r.pending = .counted || r.pending = .passed)

def State.counted (s : State) (key : String) : Nat :=
  s.requests.countP fun r => r.redisKey = key && r.pending = .counted

/-- No request of the key is between its INCR and its admission, or on its way out. -/
def State.Settled (s : State) (key : String) : Prop :=
  ∀ r ∈ s.requests, r.redisKey = key → r.pending.holds = true → r.pending = .counted

/-- The counter is the number of admitted requests in flight, and a refused request found one. -/
structure Exact (s : State) : Prop where
  counters : ∀ key, s.Settled key → s.counter key = s.inFlight key
  nonnegative : ∀ key, 0 ≤ s.counter key
  refusals : ∀ refusal ∈ s.refusals, 0 < refusal.seen.others

/-- The counter is the number of holds, with the leaked ones and without the forgotten ones,
and whoever is refused found as many as its limit. -/
structure Accounted (s : State) : Prop where
  counters : ∀ key, s.counter key = s.holding key + s.leaked key - s.forgotten key
  nonnegative : ∀ key, s.forgotten key = 0 → 0 ≤ s.counter key
  settled : ∀ key, s.Settled key → s.holding key = s.counted key
  refusals : ∀ refusal ∈ s.refusals,
    (refusal.limit : Int) ≤ refusal.seen.others + refusal.seen.leaked - refusal.seen.forgotten

/-- The holds that the counter of a key stands for. -/
def State.drift (s : State) (key : String) : Int := s.counter key - s.leaked key + s.forgotten key

/-- What a request saw counts itself and the holds, and only a count past the limit is undone. -/
def Request.Sees (r : Request) : Prop :=
  match r.pending with
  | .expire seen => seen.count = seen.others + 1 + seen.leaked - seen.forgotten
  | .decr seen => seen.count = seen.others + 1 + seen.leaked - seen.forgotten ∧ r.limit < seen.count
  | _ => True

structure Balanced (s : State) : Prop where
  drift : ∀ key, s.drift key = s.holding key
  sees : ∀ r ∈ s.requests, r.Sees
  refusals : ∀ refusal ∈ s.refusals,
    (refusal.limit : Int) ≤ refusal.seen.others + refusal.seen.leaked - refusal.seen.forgotten

theorem drift_incrBy (s : State) (key other : String) (n : Int) :
    (s.incrBy key n).drift other = s.drift other + if other = key then n else 0 := by
  simp only [State.drift, State.incrBy, State.counter, Function.update_apply]
  by_cases same : other = key
  · subst same
    simp
    omega
  · simp [same]

theorem drift_leak (s : State) (key other : String) :
    (s.leak key).drift other = s.drift other + if other = key then -1 else 0 := by
  simp only [State.drift, State.leak, State.counter, Function.update_apply]
  by_cases same : other = key
  · subst same
    simp
    omega
  · simp [same]

/-- A hold ends in the counter or among the leaked ones. -/
theorem drift_release (s : State) (key other : String) (reply : Reply) :
    (s.release key reply).drift other = s.drift other + if other = key then -1 else 0 := by
  match reply with
  | .ok | .error true => exact drift_incrBy s key other (-1)
  | .error false => exact drift_leak s key other

theorem release_refusals (s : State) (key : String) (reply : Reply) :
    (s.release key reply).refusals = s.refusals := by
  match reply with
  | .ok | .error true => rfl
  | .error false => rfl

/-- What one request starts to hold, or lets go. -/
def held (before after : Pending) : Int := after.holds.toNat - before.holds.toNat

theorem holding_set {s : State} {k : Nat} {r : Request} (next : Pending) (found : s.requests[k]? = some r)
    (key : String) :
    ((s.requests.set k { r with pending := next }).countP fun r => r.redisKey = key && r.pending.holds : Int) =
      s.holding key + if key = r.redisKey then held r.pending next else 0 := by
  obtain ⟨bound, same⟩ := List.getElem?_eq_some_iff.mp found
  have listed : (r.redisKey = key && r.pending.holds) = true → 0 < s.holding key := by
    intro holds
    exact List.countP_pos_iff.mpr ⟨r, List.mem_of_getElem? found, holds⟩
  rw [List.countP_set bound, same]
  change ((s.holding key - _ + _ : Nat) : Int) = _
  by_cases own : r.redisKey = key
  · subst own
    cases before : r.pending.holds <;> cases after : next.holds
    all_goals simp_all [held]
    omega
  · simp [own, Ne.symm own]

/-- A request goes from one await to the next, and the counter follows what it holds. -/
theorem Balanced.advance {s t : State} {k : Nat} {r : Request} {next : Pending} (balanced : Balanced s)
    (found : s.requests[k]? = some r)
    (drift : ∀ key, t.drift key = s.drift key + if key = r.redisKey then held r.pending next else 0)
    (sees : Request.Sees { r with pending := next })
    (refusals : ∀ refusal ∈ t.refusals,
      (refusal.limit : Int) ≤ refusal.seen.others + refusal.seen.leaked - refusal.seen.forgotten) :
    Balanced { t with requests := s.requests.set k { r with pending := next } } := by
  constructor
  · intro key
    have moved := drift key
    rw [balanced.drift key, ← holding_set next found key] at moved
    exact moved
  · exact Transition.forall_mem_set k balanced.sees sees
  · exact refusals

/-- What the code does between two awaits, for a request of a balanced state. -/
structure Moves (s : State) (r : Request) (moved : State × Pending) : Prop where
  drift : ∀ key, moved.1.drift key = s.drift key + if key = r.redisKey then held r.pending moved.2 else 0
  sees : Request.Sees { r with pending := moved.2 }
  refusals : ∀ refusal ∈ moved.1.refusals, refusal ∈ s.refusals ∨
    (refusal.limit : Int) ≤ refusal.seen.others + refusal.seen.leaked - refusal.seen.forgotten

theorem Balanced.move {s t : State} {k : Nat} {f : State → Request → State × Pending} (balanced : Balanced s)
    (moves : ∀ r, r.Sees → Moves s r (f s r)) (stepped : s.move k f = some t) : Balanced t := by
  obtain ⟨r, found, rfl⟩ := Option.map_eq_some_iff.mp stepped
  have moved := moves r (balanced.sees r (List.mem_of_getElem? found))
  apply balanced.advance found moved.drift moved.sees
  intro refusal member
  rcases moved.refusals refusal member with old | told
  · exact balanced.refusals refusal old
  · exact told

/-- A move that leaves the counters alone keeps what the request holds. -/
theorem Moves.quiet {s : State} {r : Request} {next : Pending} (kept : next.holds = r.pending.holds)
    (sees : Request.Sees { r with pending := next }) : Moves s r (s, next) := by
  constructor
  · intro key
    simp [held, kept]
  · exact sees
  · exact fun _ => .inl

theorem Moves.leak {s : State} {r : Request} {next : Pending} (before : r.pending.holds = true)
    (after : next.holds = false) (sees : Request.Sees { r with pending := next }) :
    Moves s r (s.leak r.redisKey, next) := by
  constructor
  · intro key
    rw [drift_leak]
    simp [held, before, after]
  · exact sees
  · exact fun _ => .inl

theorem resume_moves {s : State} {r : Request} (balanced : Balanced s) (sees : r.Sees) (reply : Reply) :
    Moves s r (resume s r reply) := by
  unfold Request.Sees at sees
  cases waits : r.pending with
  | client =>
    cases reply with
    | ok =>
      simp only [resume, waits]
      exact .quiet (by rw [waits]; rfl) trivial
    | error executed =>
      simp only [resume, waits]
      exact .quiet (by rw [waits]; rfl) trivial
  | incr =>
    simp only [resume, waits]
    match reply with
    | .ok =>
      constructor
      · intro key
        rw [drift_incrBy, waits]
        rfl
      · have drift := balanced.drift r.redisKey
        simp only [State.drift] at drift
        simp only [Request.Sees, State.see]
        omega
      · exact fun _ => .inl
    | .error true =>
      constructor
      · intro key
        rw [drift_leak, drift_incrBy, waits]
        by_cases same : key = r.redisKey <;> simp [same, held, Pending.holds]
      · trivial
      · exact fun _ => .inl
    | .error false => exact .quiet (by rw [waits]; rfl) trivial
  | expire seen =>
    rw [waits] at sees
    simp only [resume, waits]
    cases reply with
    | ok =>
      simp only
      split
      · rename_i more
        exact .quiet (by rw [waits]; rfl) ⟨sees, more⟩
      · exact .quiet (by rw [waits]; rfl) trivial
    | error executed => exact .leak (by rw [waits]; rfl) rfl trivial
  | decr seen =>
    rw [waits] at sees
    simp only [resume, waits]
    constructor
    · intro key
      have moved := drift_release s r.redisKey key reply
      rw [waits]
      exact moved
    · trivial
    · intro refusal member
      rcases List.mem_cons.mp member with rfl | old
      · right
        have past := sees.2
        simp only
        omega
      · left
        rwa [release_refusals] at old
  | finishClient =>
    simp only [resume, waits]
    cases reply with
    | ok => exact .quiet (by rw [waits]; rfl) trivial
    | error executed => exact .leak (by rw [waits]; rfl) rfl trivial
  | finishDecr =>
    simp only [resume, waits]
    constructor
    · intro key
      have moved := drift_release s r.redisKey key reply
      rw [waits]
      exact moved
    · trivial
    · intro refusal member
      left
      rwa [release_refusals] at member
  | counted | passed | ended =>
    simp only [resume, waits]
    exact .quiet (by rw [waits]) trivial

theorem finish_moves {s : State} {r : Request} (sees : r.Sees) : Moves s r (finish s r) := by
  unfold finish
  split
  · rename_i waits
    exact .quiet (by rw [waits]; rfl) trivial
  · rename_i waits
    exact .quiet (by rw [waits]; rfl) trivial
  · exact .quiet rfl sees

theorem close_moves {s : State} {r : Request} (sees : r.Sees) : Moves s r (close s r) := by
  unfold close
  split
  · rename_i waits
    exact .leak (by rw [waits]; rfl) rfl trivial
  · rename_i waits
    exact .quiet (by rw [waits]; rfl) trivial
  · exact .quiet rfl sees

theorem request_balanced {s : State} (rateContext : Option RateContext) (upgrade : Option String)
    (balanced : Balanced s) : Balanced (concurrentRequestLimiter s rateContext upgrade) := by
  constructor
  · intro key
    have kept : (concurrentRequestLimiter s rateContext upgrade).holding key = s.holding key := by
      simp [State.holding, concurrentRequestLimiter, List.countP_append, Pending.holds]
    rw [kept]
    exact balanced.drift key
  · intro r member
    rcases List.mem_append.mp member with old | new
    · exact balanced.sees r old
    · rw [List.mem_singleton.mp new]
      trivial
  · exact balanced.refusals

theorem step_balanced {s t : State} {a : Act} (balanced : Balanced s) (stepped : step s a = some t) :
    Balanced t := by
  cases a with
  | request rateContext upgrade =>
    cases stepped
    exact request_balanced rateContext upgrade balanced
  | resume k reply =>
    exact balanced.move (f := fun s r => resume s r reply)
      (fun r sees => resume_moves balanced sees reply) stepped
  | finish k => exact balanced.move (fun r sees => finish_moves sees) stepped
  | close k => exact balanced.move (fun r sees => close_moves sees) stepped
  | expire key =>
    cases stepped
    refine ⟨fun other => ?_, balanced.sees, balanced.refusals⟩
    have drift := balanced.drift other
    simp only [State.drift, State.counter, Function.update_apply] at drift ⊢
    by_cases same : other = key
    · subst same
      simp
      rfl
    · simp only [if_neg same]
      exact drift

theorem Balanced.accounted {s : State} (balanced : Balanced s) : Accounted s := by
  have counters (key : String) : s.counter key = s.holding key + s.leaked key - s.forgotten key := by
    have drift := balanced.drift key
    simp only [State.drift] at drift
    omega
  constructor
  · exact counters
  · intro key none
    rw [counters key, none]
    omega
  · intro key settled
    apply List.countP_congr
    intro r member
    simp only [Bool.and_eq_true, decide_eq_true_eq]
    constructor
    · rintro ⟨own, holds⟩
      exact ⟨own, settled r member own holds⟩
    · rintro ⟨own, counted⟩
      rw [counted]
      exact ⟨own, rfl⟩
  · exact balanced.refusals

/-- In every run the counter is accounted for: it differs from the requests that hold it by those
that left without a DECR and those that held it when it was dropped. -/
theorem reachable_accounted {s : State} (reached : system.Reachable s) : Accounted s := by
  have balanced : Balanced s := by
    refine reached.invariant ?_ fun before _ => step_balanced before
    rintro _ rfl
    exact ⟨fun _ => rfl, nofun, nofun⟩
  exact balanced.accounted

def enter (k : Nat) : List Act :=
  [.request none none, .resume k .ok, .resume k .ok, .resume k .ok]

/-- One request finishes, the peer of another goes away, a third fails at EXPIRE. -/
def mixed : List Act :=
  enter 0 ++ [.finish 0, .resume 0 .ok, .resume 0 .ok] ++ enter 1 ++ [.close 1, .request none none,
    .resume 2 .ok, .resume 2 .ok, .resume 2 (.error false)]

theorem mixed_accounted : ∃ s, system.run idle mixed = some s ∧ s.counter "conc:unknown" = 2 ∧ Accounted s := by
  have ends : (system.run idle mixed).any (fun s => s.counter "conc:unknown" = 2) = true := by decide +kernel
  obtain ⟨s, executed, count⟩ := (Option.any_eq_true _ _).mp ends
  exact ⟨s, executed, of_decide_eq_true count, reachable_accounted (Transition.System.reachable_of_run system idle mixed rfl executed)⟩

/-- Five peers go away; the next request is alone, and refused. -/
def abandoned : List Act :=
  enter 0 ++ [.close 0] ++ enter 1 ++ [.close 1] ++ enter 2 ++ [.close 2] ++ enter 3 ++ [.close 3] ++
    enter 4 ++ [.close 4] ++ enter 5 ++ [.resume 5 .ok]

theorem abandoned_refused : ¬ ∀ s, system.Reachable s → Exact s := by
  intro claim
  have ends : (system.run idle abandoned).any (fun s => s.refusals.any (fun refusal => refusal.seen.others = 0)) = true := by
    decide +kernel
  obtain ⟨s, executed, facts⟩ := (Option.any_eq_true _ _).mp ends
  obtain ⟨refusal, refused, none_other⟩ := List.any_eq_true.mp facts
  have reached := Transition.System.reachable_of_run system idle abandoned rfl executed
  have others := (claim s reached).refusals refusal refused
  exact absurd (of_decide_eq_true none_other) (by omega)

end Octraban.Concurrency
