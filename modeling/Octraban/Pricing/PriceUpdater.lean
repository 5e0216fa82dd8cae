import Octraban.Core.JavaScript
import Octraban.Core.Transition

/-! price-updater.ts and composite-price.ts: three jobs price tokens side by side, and the one
for active tokens ends with a statement over all rows. -/
namespace Octraban.PriceUpdater
open JavaScript Transition System

structure DexPrice where
  priceUsd : Number
  confidence : Number
  volume24hUsd : Number
  liquidityUsd : Number
  twap1h : Number
  twap24h : Number

structure ExternalPrice where
  priceUsd : Number
  marketCapUsd : Option Number
  volume24hUsd : Option Number
  priceChange1h : Option Number
  priceChange24h : Option Number
  priceChange7d : Option Number
  source : String
  confidence : Number

/-- An entry of `breakdown`. -/
structure Offer where
  source : String
  price : Number
  confidence : Number

structure CompositePrice where
  priceUsd : Number
  priceXlm : Number
  source : String
  confidence : Number
  volume24hUsd : Number
  liquidityUsd : Number
  marketCapUsd : Option Number
  priceChange1h : Option Number
  priceChange24h : Option Number
  priceChange7d : Option Number
  twap1h : Number
  twap24h : Number
  breakdown : List Offer

/-- The columns that only `persistPrice` writes. -/
structure Details where
  liquidityUsd : Option Number
  priceChange1h : Option Number
  priceChange24h : Option Number
  priceChange7d : Option Number
  twap1h : Option Number
  twap24h : Option Number

/-- A row of `tokenPrice`. -/
structure TokenPrice where
  priceUsd : Number
  priceXlm : Number
  source : String
  confidence : Number
  volume24hUsd : Option Number
  marketCapUsd : Option Number
  details : Details
  updatedAt : Int

/-- What an upsert writes; without `details` it leaves these columns alone. -/
structure Upsert where
  priceUsd : Number
  priceXlm : Number
  source : String
  confidence : Number
  volume24hUsd : Option Number
  marketCapUsd : Option Number
  details : Option Details
  updatedAt : Int

/-- A row of `tokenPriceHistory`. -/
structure TokenPriceHistory where
  tokenAddress : String
  priceUsd : Number
  priceXlm : Number
  source : String
  confidence : Number
  volume24hUsd : Option Number
  marketCapUsd : Option Number
  timestamp : Int

structure Token where
  address : String
  tokenSymbol : Option String

/-- `x || null` -/
def orNull (x : Number) : Option Number := if x = .nan ∨ x = .finite 0 then none else some x

/-- What the sources offer: the target of a stablecoin, the price of the pools and the one
from outside. -/
structure Sources where
  stableInfo : Option Number
  dexPrice : Option DexPrice
  extPrice : Option ExternalPrice

def selectFrom (selected offer : Offer) : Offer :=
  if selected.confidence.lt offer.confidence then offer else selected

/-- `computeCompositePrice` for a token that is not cached, up to storing the result. -/
def computeCompositePrice (sources : Sources) : CompositePrice :=
  let peg := sources.stableInfo.map fun target : Number => (⟨"peg", target, .finite 1⟩ : Offer)
  let dex := sources.dexPrice.map fun price : DexPrice => (⟨"dex", price.priceUsd, price.confidence⟩ : Offer)
  let ext := sources.extPrice.map fun price : ExternalPrice =>
    (⟨price.source, price.priceUsd, price.confidence⟩ : Offer)
  let breakdown := peg.toList ++ dex.toList ++ ext.toList
  let first : Offer := peg.getD ⟨"none", .finite 0, .finite 0⟩
  let highest := (dex.toList ++ ext.toList).foldl selectFrom first
  let selected := if highest.price.le (.finite 0) then breakdown.headD highest else highest
  { priceUsd := selected.price
    priceXlm := selected.price.mul (.finite (5 / 2))
    source := selected.source
    confidence := selected.confidence
    volume24hUsd := (sources.dexPrice.map DexPrice.volume24hUsd).getD (.finite 0)
    liquidityUsd := (sources.dexPrice.map DexPrice.liquidityUsd).getD (.finite 0)
    marketCapUsd := sources.extPrice.bind ExternalPrice.marketCapUsd
    priceChange1h := sources.extPrice.bind ExternalPrice.priceChange1h
    priceChange24h := sources.extPrice.bind ExternalPrice.priceChange24h
    priceChange7d := sources.extPrice.bind ExternalPrice.priceChange7d
    twap1h := (sources.dexPrice.map DexPrice.twap1h).getD (.finite 0)
    twap24h := (sources.dexPrice.map DexPrice.twap24h).getD (.finite 0)
    breakdown := breakdown }

/-- The upsert of `persistPrice`. -/
def persistPrice (price : CompositePrice) (now : Int) : Upsert where
  priceUsd := price.priceUsd
  priceXlm := price.priceXlm
  source := price.source
  confidence := price.confidence
  volume24hUsd := orNull price.volume24hUsd
  marketCapUsd := price.marketCapUsd.bind orNull
  details := some {
    liquidityUsd := orNull price.liquidityUsd
    priceChange1h := price.priceChange1h
    priceChange24h := price.priceChange24h
    priceChange7d := price.priceChange7d
    twap1h := orNull price.twap1h
    twap24h := orNull price.twap24h }
  updatedAt := now

/-- The upsert of `runExternalApiUpdate`. -/
def externalUpsert (extPrice : ExternalPrice) (now : Int) : Upsert where
  priceUsd := extPrice.priceUsd
  priceXlm := extPrice.priceUsd.mul (.finite (5 / 2))
  source := extPrice.source
  confidence := extPrice.confidence
  volume24hUsd := extPrice.volume24hUsd.bind orNull
  marketCapUsd := extPrice.marketCapUsd.bind orNull
  details := none
  updatedAt := now

def Upsert.row (upsert : Upsert) (existing : Option TokenPrice) : TokenPrice where
  priceUsd := upsert.priceUsd
  priceXlm := upsert.priceXlm
  source := upsert.source
  confidence := upsert.confidence
  volume24hUsd := upsert.volume24hUsd
  marketCapUsd := upsert.marketCapUsd
  details := upsert.details.getD ((existing.map TokenPrice.details).getD ⟨none, none, none, none, none, none⟩)
  updatedAt := upsert.updatedAt

def shouldRecord (lastHistory : Option TokenPriceHistory) (price : CompositePrice) (now : Int) : Bool :=
  match lastHistory with
  | none => true
  | some last =>
    let moved := (last.priceUsd.sub price.priceUsd)
    let change := (if moved.negative then moved.neg else moved).div price.priceUsd
    now - last.timestamp > 60000 || (roundRat (1 / 1000)).lt change

/-- What one call for a token awaits: a `computeCompositePrice`, or a pass of the loop over
the tokens of `runExternalApiUpdate`. `pricedAt` is when the price to be stored was made. -/
inductive Call where
  | pricing (token : Token)
  | discovering (token : Token)
  | finding (token : Token) (extPrice : ExternalPrice)
  | upserting (token : Token) (upsert : Upsert) (pricedAt : Int) (price : Option CompositePrice)
  | readingHistory (token : Token) (price : CompositePrice) (now : Int)
  | recording (token : Token) (price : CompositePrice) (now : Int)
  | settled

inductive Kind where
  | active | slow | external
  deriving DecidableEq

/-- What a job awaits: the tokens, the calls of a batch, or the statement at the end. -/
inductive Stage where
  | finding
  | batch (calls : List Call) (rest : List (List Token))
  | refreshing
  | finished

structure Job where
  kind : Kind
  stage : Stage

/-- `pricedAt` has the time at which the stored price of a token was made. -/
structure State where
  now : Int
  isRunning : Bool
  tokenPrice : String → Option TokenPrice
  tokenPriceHistory : List TokenPriceHistory
  jobs : List Job
  pricedAt : String → Option Int

/-- The answer to an awaited call. What is lost was done, but its reply does not arrive. -/
inductive Answer where
  | done
  | refused
  | lost
  | cached
  | sources (sources : Sources)
  | extPrice (extPrice : Option ExternalPrice)

def store (s : State) (token : Token) (upsert : Upsert) (pricedAt : Int) : State :=
  { s with
    tokenPrice := Function.update s.tokenPrice token.address (some (upsert.row (s.tokenPrice token.address)))
    pricedAt := Function.update s.pricedAt token.address (some pricedAt) }

def lastHistory (s : State) (token : Token) : Option TokenPriceHistory :=
  let rows := s.tokenPriceHistory.filter fun row => row.tokenAddress = token.address
  rows.foldl (fun last row => if last.elim true fun last => last.timestamp ≤ row.timestamp then some row else last) none

def historyRow (token : Token) (price : CompositePrice) (now : Int) : TokenPriceHistory where
  tokenAddress := token.address
  priceUsd := price.priceUsd
  priceXlm := price.priceXlm
  source := price.source
  confidence := price.confidence
  volume24hUsd := orNull price.volume24hUsd
  marketCapUsd := price.marketCapUsd.bind orNull
  timestamp := now

/-- A call goes on; what throws settles it, and `allSettled` or `catch` swallows the error. -/
def resume (s : State) : Call → Answer → Option (State × Call)
  | .pricing token, .sources sources =>
    let price := computeCompositePrice sources
    if (Number.finite 0).lt price.priceUsd then some (s, .upserting token (persistPrice price s.now) s.now (some price))
    else some (s, .settled)
  | .pricing _, .cached => some (s, .settled)
  | .pricing _, .refused => some (s, .settled)
  | .discovering token, .extPrice (some extPrice) => some (s, .finding token extPrice)
  | .discovering _, .extPrice none => some (s, .settled)
  | .discovering _, .refused => some (s, .settled)
  | .finding token extPrice, .done =>
    if (s.tokenPrice token.address).isSome ∧ (Number.finite (1 / 2)).lt extPrice.confidence then
      some (s, .upserting token (externalUpsert extPrice s.now) s.now none)
    else some (s, .settled)
  | .finding _ _, .refused => some (s, .settled)
  | .upserting token upsert pricedAt (some price), .done =>
    some (store s token upsert pricedAt, .readingHistory token price upsert.updatedAt)
  | .upserting token upsert pricedAt none, .done => some (store s token upsert pricedAt, .settled)
  | .upserting token upsert pricedAt _, .lost => some (store s token upsert pricedAt, .settled)
  | .upserting _ _ _ _, .refused => some (s, .settled)
  | .readingHistory token price now, .done =>
    if shouldRecord (lastHistory s token) price now then some (s, .recording token price now) else some (s, .settled)
  | .readingHistory _ _ _, .refused => some (s, .settled)
  | .recording token price now, .done | .recording token price now, .lost =>
    some ({ s with tokenPriceHistory := s.tokenPriceHistory ++ [historyRow token price now] }, .settled)
  | .recording _ _ _, .refused => some (s, .settled)
  | _, _ => none

/-- How many tokens a job takes, and how many it prices at a time. -/
def Kind.take : Kind → List Token → List Token
  | .active, tokens => tokens.take 50
  | .slow, tokens => tokens
  | .external, tokens => tokens.take 30

def Kind.batchSize : Kind → Nat
  | .active => 10
  | .slow => 20
  | .external => 1

def Kind.call : Kind → Token → Call
  | .active, token | .slow, token => .pricing token
  | .external, token => .discovering token

def batches (size : Nat) (tokens : List Token) : List (List Token) :=
  (List.range ((tokens.length + size - 1) / size)).map fun k => (tokens.drop (size * k)).take size

def State.setStage (s : State) (k : Nat) (job : Job) (stage : Stage) : State :=
  { s with jobs := s.jobs.set k { job with stage := stage } }

/-- The job for active tokens ends, by `finally`. -/
def State.finish (s : State) (k : Nat) (job : Job) : State :=
  let t := s.setStage k job .finished
  if job.kind = .active then { t with isRunning := false } else t

/-- The first batch of the rest is begun, or the loop is over. -/
def State.nextBatch (s : State) (k : Nat) (job : Job) : List (List Token) → State
  | batch :: rest => s.setStage k job (.batch (batch.map job.kind.call) rest)
  | [] => if job.kind = .active then s.setStage k job .refreshing else s.finish k job

/-- `UPDATE "TokenPrice" SET "updatedAt" = NOW() WHERE "updatedAt" < NOW() - INTERVAL '5 minutes'` -/
def touch (s : State) (databaseNow : Int) : State :=
  { s with
    tokenPrice := fun address => (s.tokenPrice address).map fun row =>
      if row.updatedAt < databaseNow - 300000 then { row with updatedAt := databaseNow } else row }

inductive Act where
  | tick (elapsed : Nat)
  | run (kind : Kind)
  | found (k : Nat) (tokens : Option (List Token))
  | resume (k i : Nat) (answer : Answer)
  | allSettled (k : Nat)
  | refreshed (k : Nat) (databaseNow : Int) (answer : Answer)
  | crash

def step (s : State) : Act → Option State
  | .tick elapsed => some { s with now := s.now + elapsed }
  | .run kind =>
    if kind = .active ∧ s.isRunning then some s
    else some { s with isRunning := s.isRunning || kind = .active, jobs := s.jobs ++ [⟨kind, .finding⟩] }
  | .found k tokens =>
    match s.jobs[k]? with
    | some ⟨kind, .finding⟩ =>
      match tokens with
      | none => some (s.finish k ⟨kind, .finding⟩)
      | some tokens => some (s.nextBatch k ⟨kind, .finding⟩ (batches kind.batchSize (kind.take tokens)))
    | _ => none
  | .resume k i answer =>
    match s.jobs[k]? with
    | some ⟨kind, .batch calls rest⟩ =>
      calls[i]?.bind fun call => (resume s call answer).map fun (t, next) =>
        t.setStage k ⟨kind, .batch calls rest⟩ (.batch (calls.set i next) rest)
    | _ => none
  | .allSettled k =>
    match s.jobs[k]? with
    | some ⟨kind, .batch calls rest⟩ =>
      if calls.all (fun call => match call with | .settled => true | _ => false)
        then some (s.nextBatch k ⟨kind, .batch calls rest⟩ rest) else none
    | _ => none
  | .refreshed k databaseNow answer =>
    match s.jobs[k]?, answer with
    | some ⟨kind, .refreshing⟩, .done | some ⟨kind, .refreshing⟩, .lost =>
      some ((touch s databaseNow).finish k ⟨kind, .refreshing⟩)
    | some ⟨kind, .refreshing⟩, .refused => some (s.finish k ⟨kind, .refreshing⟩)
    | _, _ => none
  | .crash => some { s with isRunning := false, jobs := [] }

/-- Every row is dated by the time at which its price was made. -/
def Honest (s : State) : Prop :=
  ∀ address row, s.tokenPrice address = some row → s.pricedAt address = some row.updatedAt

/-- The statement over all rows, when it is executed, finds none that is older than five minutes. -/
def FindsNoneOld (s : State) : Act → Prop
  | .refreshed _ _ .refused => True
  | .refreshed _ databaseNow _ => ∀ address row, s.tokenPrice address = some row → databaseNow - 300000 ≤ row.updatedAt
  | _ => True

/-- A row that is about to be written bears the time of its price. -/
def Call.Agrees : Call → Prop
  | .upserting _ upsert pricedAt _ => upsert.updatedAt = pricedAt
  | _ => True

def Stage.calls : Stage → List Call
  | .batch calls _ => calls
  | _ => []

/-- Every call of every job agrees. -/
def Agreeing (jobs : List Job) : Prop := ∀ job ∈ jobs, ∀ call ∈ job.stage.calls, call.Agrees

structure Sound (s : State) : Prop where
  honest : Honest s
  agrees : Agreeing s.jobs

variable {s t : State} {a : Act} {job : Job} {call next : Call} {answer : Answer} {k : Nat}

theorem Honest.store (honest : Honest s) (token : Token) {upsert : Upsert} (agrees : upsert.updatedAt = pricedAt) :
    Honest (store s token upsert pricedAt) := by
  intro address row found
  unfold PriceUpdater.store at found ⊢
  simp only at found ⊢
  by_cases same : address = token.address
  · subst same
    rw [Function.update_self] at found ⊢
    obtain rfl := Option.some.inj found
    exact congrArg some agrees.symm
  · rw [Function.update_of_ne same] at found ⊢
    exact honest address row found

/-- What a call does, whatever it awaits. -/
theorem resume_sound (honest : Honest s) (agrees : call.Agrees) (resumed : resume s call answer = some (t, next)) :
    Honest t ∧ next.Agrees ∧ t.jobs = s.jobs := by
  cases call with
  | pricing token =>
    cases answer with
    | sources sources =>
      simp only [resume] at resumed
      split at resumed <;> cases resumed
      · exact ⟨honest, rfl, rfl⟩
      · exact ⟨honest, trivial, rfl⟩
    | cached | refused =>
      cases resumed
      exact ⟨honest, trivial, rfl⟩
    | done | lost | extPrice _ => cases resumed
  | discovering token =>
    cases answer with
    | extPrice extPrice =>
      cases extPrice <;> cases resumed <;> exact ⟨honest, trivial, rfl⟩
    | refused =>
      cases resumed
      exact ⟨honest, trivial, rfl⟩
    | done | lost | cached | sources _ => cases resumed
  | finding token extPrice =>
    cases answer with
    | done =>
      simp only [resume] at resumed
      split at resumed <;> cases resumed
      · exact ⟨honest, rfl, rfl⟩
      · exact ⟨honest, trivial, rfl⟩
    | refused =>
      cases resumed
      exact ⟨honest, trivial, rfl⟩
    | lost | cached | sources _ | extPrice _ => cases resumed
  | upserting token upsert pricedAt price =>
    cases answer with
    | done =>
      cases price <;> cases resumed <;> exact ⟨honest.store token agrees, trivial, rfl⟩
    | lost =>
      cases price <;> cases resumed <;> exact ⟨honest.store token agrees, trivial, rfl⟩
    | refused =>
      cases price <;> cases resumed <;> exact ⟨honest, trivial, rfl⟩
    | cached | sources _ | extPrice _ => cases price <;> cases resumed
  | readingHistory token price now =>
    cases answer with
    | done =>
      simp only [resume] at resumed
      split at resumed <;> cases resumed <;> exact ⟨honest, trivial, rfl⟩
    | refused =>
      cases resumed
      exact ⟨honest, trivial, rfl⟩
    | lost | cached | sources _ | extPrice _ => cases resumed
  | recording token price now =>
    cases answer with
    | done | lost | refused =>
      cases resumed
      exact ⟨honest, trivial, rfl⟩
    | cached | sources _ | extPrice _ => cases resumed
  | settled => cases answer <;> cases resumed

/-- The statement leaves the rows dated by their prices only if it finds none to touch. -/
theorem honest_touch_iff (honest : Honest s) (databaseNow : Int) : Honest (touch s databaseNow) ↔
    ∀ address row, s.tokenPrice address = some row → databaseNow - 300000 ≤ row.updatedAt := by
  have touched {address : String} {row : TokenPrice} (found : s.tokenPrice address = some row) :
      (touch s databaseNow).tokenPrice address =
        some (if row.updatedAt < databaseNow - 300000 then { row with updatedAt := databaseNow } else row) := by
    simp only [touch, found, Option.map_some]
  constructor
  · intro after address row found
    by_contra old
    rw [not_le] at old
    have dated := after address _ (touched found)
    have before := honest address row found
    rw [if_pos old] at dated
    have same : row.updatedAt = databaseNow := Option.some.inj (before.symm.trans dated)
    omega
  · intro fresh address row found
    obtain ⟨old, present, rfl⟩ := Option.map_eq_some_iff.mp found
    rw [if_neg (not_lt.mpr (fresh address old present))]
    exact honest address old present

theorem honest_congr (rows : t.tokenPrice = s.tokenPrice) (times : t.pricedAt = s.pricedAt) : Honest t ↔ Honest s := by
  unfold Honest
  rw [rows, times]

theorem agreeing_setStage (all : Agreeing s.jobs) (job : Job) {stage : Stage}
    (new : ∀ call ∈ stage.calls, call.Agrees) : Agreeing (s.setStage k job stage).jobs :=
  forall_mem_set k all new

theorem agreeing_finish (all : Agreeing s.jobs) (job : Job) : Agreeing (s.finish k job).jobs := by
  have finished : Agreeing (s.setStage k job .finished).jobs :=
    agreeing_setStage all job fun _ member => (List.not_mem_nil member).elim
  unfold State.finish
  simp only
  split <;> exact finished

theorem agreeing_nextBatch (all : Agreeing s.jobs) (job : Job) (parts : List (List Token)) :
    Agreeing (s.nextBatch k job parts).jobs := by
  cases parts with
  | nil =>
    simp only [State.nextBatch]
    split
    · exact agreeing_setStage all job fun _ member => (List.not_mem_nil member).elim
    · exact agreeing_finish all job
  | cons batch rest =>
    refine agreeing_setStage all job fun call member => ?_
    obtain ⟨token, _, rfl⟩ := List.mem_map.mp member
    cases job.kind <;> trivial

theorem honest_finish (job : Job) : Honest (s.finish k job) ↔ Honest s := by
  unfold State.finish
  simp only
  split <;> exact honest_congr rfl rfl

theorem honest_nextBatch (job : Job) (parts : List (List Token)) : Honest (s.nextBatch k job parts) ↔ Honest s := by
  cases parts with
  | nil =>
    simp only [State.nextBatch]
    split
    · exact honest_congr rfl rfl
    · exact honest_finish job
  | cons batch rest => exact honest_congr rfl rfl

/-- Every step keeps what is in progress right, and the rows unless it is the statement. -/
theorem step_sound (sound : Sound s) (stepped : step s a = some t) :
    Agreeing t.jobs ∧ (Honest t ↔ FindsNoneOld s a) := by
  obtain ⟨honest, agrees⟩ := sound
  cases a with
  | tick elapsed =>
    cases stepped
    exact ⟨agrees, iff_of_true honest trivial⟩
  | run kind =>
    simp only [step] at stepped
    split at stepped <;> cases stepped
    · exact ⟨agrees, iff_of_true honest trivial⟩
    · refine ⟨fun job member => ?_, iff_of_true honest trivial⟩
      rcases List.mem_append.mp member with old | new
      · exact agrees job old
      · obtain rfl := List.mem_singleton.mp new
        exact fun _ none_called => (List.not_mem_nil none_called).elim
  | found k tokens =>
    simp only [step] at stepped
    split at stepped
    · cases tokens with
      | none =>
        cases stepped
        exact ⟨agreeing_finish agrees _, iff_of_true ((honest_finish _).mpr honest) trivial⟩
      | some tokens =>
        cases stepped
        exact ⟨agreeing_nextBatch agrees _ _, iff_of_true ((honest_nextBatch _ _).mpr honest) trivial⟩
    · cases stepped
  | resume k i answer =>
    simp only [step] at stepped
    split at stepped
    · rename_i kind calls rest at_
      simp only [Option.bind_eq_some_iff, Option.map_eq_some_iff, Prod.exists] at stepped
      obtain ⟨call, called, u, next, resumed, rfl⟩ := stepped
      have inProgress := agrees _ (List.mem_of_getElem? at_)
      obtain ⟨after, ready, same⟩ := resume_sound honest (inProgress call (List.mem_of_getElem? called)) resumed
      have all : Agreeing u.jobs := by
        rw [same]
        exact agrees
      refine ⟨agreeing_setStage all _ (forall_mem_set i inProgress ready), iff_of_true ?_ trivial⟩
      exact (honest_congr rfl rfl).mpr after
    · cases stepped
  | allSettled k =>
    simp only [step] at stepped
    split at stepped
    · rename_i kind calls rest at_
      simp only [Option.ite_none_right_eq_some, Option.some.injEq] at stepped
      obtain ⟨_, rfl⟩ := stepped
      exact ⟨agreeing_nextBatch agrees _ _, iff_of_true ((honest_nextBatch _ _).mpr honest) trivial⟩
    · cases stepped
  | refreshed k databaseNow answer =>
    have touched : Agreeing (touch s databaseNow).jobs := agrees
    simp only [step] at stepped
    split at stepped
    · cases stepped
      exact ⟨agreeing_finish touched _, (honest_finish _).trans (honest_touch_iff honest databaseNow)⟩
    · cases stepped
      exact ⟨agreeing_finish touched _, (honest_finish _).trans (honest_touch_iff honest databaseNow)⟩
    · cases stepped
      exact ⟨agreeing_finish agrees _, iff_of_true ((honest_finish _).mpr honest) trivial⟩
    · cases stepped
  | crash =>
    cases stepped
    exact ⟨fun _ member => (List.not_mem_nil member).elim, iff_of_true honest trivial⟩

end Octraban.PriceUpdater
