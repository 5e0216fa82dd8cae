import Mathlib.Algebra.BigOperators.Group.Finset.Piecewise
import Octraban.Core.JavaScript
import Octraban.Core.Transition

/-! usageTracker.js: requests are counted in Redis, and flushes carry the counts to the
daily rows. A flush reads the counters of a row, adds them to it and deletes them in three
separate steps, while requests and other flushes go on. -/
namespace Octraban.Usage
open JavaScript

inductive EndpointGroup where
  | websocket
  | simulate
  | contracts
  | search
  | events
  | default
  deriving DecidableEq

def EndpointGroup.all : List EndpointGroup := [websocket, simulate, contracts, search, events, default]

instance : Fintype EndpointGroup := 
  .ofList EndpointGroup.all fun endpointGroup => by cases endpointGroup <;> decide

def EndpointGroup.name : EndpointGroup → String
  | websocket => "websocket"
  | simulate => "simulate"
  | contracts => "contracts"
  | search => "search"
  | events => "events"
  | default => "default"

def endpointGroupDefinitions : List (EndpointGroup × List String) :=
  [(.websocket, ["/ws", "/socket", "/api/ws", "/api/socket"]),
    (.simulate, ["/api/simulate", "/api/sandbox/simulate"]),
    (.contracts, ["/api/contracts", "/api/v1/contracts", "/api/spec", "/api/verify"]),
    (.search, ["/api/search", "/api/wallet"]),
    (.events, ["/api/events", "/api/v1/events"])]

def resolveEndpointGroup (path : String) : EndpointGroup :=
  let normalised := path.toList.map Char.toLower
  let matched (pattern : String) : Bool :=
    normalised = pattern.toList || (pattern ++ "/").toList.isPrefixOf normalised ||
      (pattern ++ "?").toList.isPrefixOf normalised
  (endpointGroupDefinitions.find? fun (_, patterns) => patterns.any matched).elim .default (·.1)

inductive Metric where
  | totalRequests
  | dataTransferBytes
  | rateLimitHits
  | endpoint (endpointGroup : EndpointGroup)
  deriving DecidableEq

def Metric.text : Metric → String
  | totalRequests => "total_requests"
  | dataTransferBytes => "data_transfer_bytes"
  | rateLimitHits => "rate_limit_hits"
  | endpoint endpointGroup => "endpoint:" ++ endpointGroup.name

structure KeyDate where
  keyId : String
  date : String
  deriving DecidableEq

structure UsageKey where
  row : KeyDate
  metric : Metric

def UsageKey.text (key : UsageKey) : String :=
  "usage:" ++ key.row.keyId ++ ":" ++ key.row.date ++ ":" ++ key.metric.text

/-- What a flush reads from the text of a key: its row, and the text of its metric. -/
def readKey (k : String) : Option (KeyDate × String) :=
  match split k ':' with
  | _ :: keyId :: date :: metric => if metric = [] then none else some (⟨keyId, date⟩, ":".intercalate metric)
  | _ => none

/-- Ids and dates have no colon, so a flush reads a key back. -/
theorem readKey_text (key : UsageKey) (keyId : ':' ∉ key.row.keyId.toList) (date : ':' ∉ key.row.date.toList) :
    readKey key.text = some (key.row, key.metric.text) := by
  have read (parts : List String) (plain : ∀ part ∈ parts, ':' ∉ part.toList) (nonempty : parts ≠ [])
      (text : key.metric.text = ":".intercalate parts) :
      readKey key.text = some (key.row, key.metric.text) := by
    have whole : key.text.toList =
        [':'].intercalate (("usage" :: key.row.keyId :: key.row.date :: parts).map String.toList) := by
      rw [UsageKey.text, text]
      cases parts with
      | nil => contradiction
      | cons part rest => simp [List.intercalate]
    have cut : split key.text ':' = "usage" :: key.row.keyId :: key.row.date :: parts := by
      rw [split, whole, List.splitOn_intercalate]
      · simp
      · intro part member
        obtain ⟨text, listed, rfl⟩ := List.mem_map.mp member
        rcases List.mem_cons.mp listed with rfl | listed
        · decide
        rcases List.mem_cons.mp listed with rfl | listed
        · exact keyId
        rcases List.mem_cons.mp listed with rfl | listed
        · exact date
        · exact plain text listed
      · simp
    rw [readKey, cut, text]
    simp [nonempty]
  cases named : key.metric with
  | endpoint endpointGroup =>
    rw [← named]
    refine read ["endpoint", endpointGroup.name] ?_ (by simp) ?_
    · cases endpointGroup <;> decide
    · rw [named]
      cases endpointGroup <;> decide
  | _ =>
    rw [← named]
    refine read [key.metric.text] ?_ (by simp) ?_
    · rw [named]
      decide
    · rw [named]
      decide

/-- The counters of one row that a flush works on. -/
structure Bucket where
  row : KeyDate
  metrics : List Metric

/-- Keys by row, in the order in which the rows first come. -/
def addKey (buckets : List Bucket) (key : UsageKey) : List Bucket :=
  if buckets.any (·.row = key.row) then
    buckets.map fun bucket =>
      if bucket.row = key.row then { bucket with metrics := bucket.metrics ++ [key.metric] } else bucket
  else buckets ++ [⟨key.row, [key.metric]⟩]

structure UsageDaily where
  totalRequests : Nat
  endpointDistribution : EndpointGroup → Option Nat
  rateLimitHits : Nat

/-- What a flush awaits. `read` is what its GETs found of all the counters of the row. -/
inductive Pending where
  | client
  | scan
  | get (bucket : Bucket) (rest : List Bucket)
  | upsert (bucket : Bucket) (read : Metric → Nat) (rest : List Bucket)
  | del (bucket : Bucket) (read : Metric → Nat) (rest : List Bucket)
  | ended

/-- `recorded` counts the requests whose MULTI took place. -/
structure State where
  counters : KeyDate → Metric → Nat
  rows : KeyDate → Option UsageDaily
  flushes : List Pending
  recorded : KeyDate → Nat

/-- A missing counter and one at 0 are the same to every reader. -/
def keyValues (bucket : Bucket) (read : Metric → Nat) (metric : Metric) : Nat :=
  if metric ∈ bucket.metrics then read metric else 0

def increment (endpoint : String) (responseBytes : Int) (isRateLimited : Bool) : Metric → Nat
  | .totalRequests => 1
  | .dataTransferBytes => responseBytes.toNat
  | .rateLimitHits => isRateLimited.toNat
  | .endpoint endpointGroup => if endpointGroup = resolveEndpointGroup endpoint then 1 else 0

/-- One transaction: all increments take place, or none. -/
def recordRequest (s : State) (keyId : Option String) (date endpoint : String) (responseBytes : Int)
    (isRateLimited : Bool) : State :=
  match keyId.filter (· ≠ "") with
  | none => s
  | some keyId =>
    let row : KeyDate := ⟨keyId, date⟩
    { s with
      counters := Function.update s.counters row fun metric =>
        s.counters row metric + increment endpoint responseBytes isRateLimited metric
      recorded := Function.update s.recorded row (s.recorded row + 1) }

def excluded (bucket : Bucket) (read : Metric → Nat) : UsageDaily where
  totalRequests := keyValues bucket read .totalRequests
  endpointDistribution endpointGroup :=
    if .endpoint endpointGroup ∈ bucket.metrics then some (keyValues bucket read (.endpoint endpointGroup)) else none
  rateLimitHits := keyValues bucket read .rateLimitHits

/-- `ON CONFLICT (api_key_id, date) DO UPDATE`: `||` of two objects keeps the second value of a name. -/
def UsageDaily.update (row excluded : UsageDaily) : UsageDaily where
  totalRequests := row.totalRequests + excluded.totalRequests
  endpointDistribution endpointGroup :=
    (excluded.endpointDistribution endpointGroup).or (row.endpointDistribution endpointGroup)
  rateLimitHits := row.rateLimitHits + excluded.rateLimitHits

def upsert (s : State) (bucket : Bucket) (read : Metric → Nat) : State :=
  let new := excluded bucket read
  { s with rows := Function.update s.rows bucket.row (some ((s.rows bucket.row).elim new (·.update new))) }

def del (s : State) (bucket : Bucket) : State :=
  { s with counters := Function.update s.counters bucket.row fun metric =>
      if metric ∈ bucket.metrics then 0 else s.counters bucket.row metric }

def next : List Bucket → Pending
  | [] => .ended
  | bucket :: rest => .get bucket rest

/-- A command that fails may have taken place. `value` carries the keys that SCAN found. -/
inductive Reply where
  | value (usageKeys : List UsageKey)
  | error (executed : Bool)

def Reply.executed : Reply → Bool
  | value _ => true
  | error executed => executed

/-- A flush from one await to the next: what fails before the upsert ends the flush, what
fails after the GETs goes on to the next row. -/
def resume (s : State) : Pending → Reply → State × Pending
  | .client, .value _ => (s, .scan)
  | .client, .error _ => (s, .ended)
  | .scan, .value usageKeys => (s, next (usageKeys.foldl addKey []))
  | .scan, .error _ => (s, .ended)
  | .get bucket rest, .value _ => (s, .upsert bucket (s.counters bucket.row) rest)
  | .get _ _, .error _ => (s, .ended)
  | .upsert bucket read rest, .value _ => (upsert s bucket read, .del bucket read rest)
  | .upsert bucket read rest, .error executed => (if executed then upsert s bucket read else s, next rest)
  | .del bucket _ rest, reply => (if reply.executed then del s bucket else s, next rest)
  | .ended, _ => (s, .ended)

inductive Act where
  | record (keyId : Option String) (date endpoint : String) (responseBytes : Int) (isRateLimited : Bool)
  | flush
  | resume (k : Nat) (reply : Reply)

def step (s : State) : Act → Option State
  | .record keyId date endpoint responseBytes isRateLimited =>
    some (recordRequest s keyId date endpoint responseBytes isRateLimited)
  | .flush => some { s with flushes := s.flushes ++ [.client] }
  | .resume k reply => s.flushes[k]?.map fun pending =>
    let (t, next) := Usage.resume s pending reply
    { t with flushes := s.flushes.set k next }

def unused : State := ⟨fun _ _ => 0, fun _ => none, [], fun _ => 0⟩

def system : Transition.System State Act where
  initial s := s = unused
  step := step

def State.stored (s : State) (row : KeyDate) : Nat := (s.rows row).elim 0 (·.totalRequests)

/-- No flush is between the upsert and the DEL of the row. -/
def State.Quiet (s : State) (row : KeyDate) : Prop :=
  ∀ bucket read rest, Pending.del bucket read rest ∈ s.flushes → bucket.row ≠ row

/-- Nothing is lost and nothing counted twice. -/
structure Exact (s : State) : Prop where
  requests : ∀ row, s.Quiet row → s.stored row + s.counters row .totalRequests = s.recorded row
  distribution : ∀ row daily, s.rows row = some daily →
    ∑ endpointGroup, (daily.endpointDistribution endpointGroup).getD 0 = daily.totalRequests

/-- The counters whose values count requests. -/
def countedMetrics : List Metric := .totalRequests :: EndpointGroup.all.map .endpoint

/-- SCAN has found every counter of requests that the GETs could have read. -/
def Bucket.covers (bucket : Bucket) (read : Metric → Nat) : Bool :=
  decide (∀ metric ∈ countedMetrics, read metric ≠ 0 → metric ∈ bucket.metrics)

/-- The row has no count yet for an endpoint group of the bucket. -/
def State.apart (s : State) (bucket : Bucket) : Bool :=
  decide (∀ endpointGroup, .endpoint endpointGroup ∈ bucket.metrics →
    ((s.rows bucket.row).bind (·.endpointDistribution endpointGroup)).getD 0 = 0)

/-- A DEL finds the counters as the GETs read them. -/
def State.unchanged (s : State) (bucket : Bucket) (read : Metric → Nat) : Bool :=
  decide (∀ metric ∈ countedMetrics, metric ∈ bucket.metrics → s.counters bucket.row metric = read metric)

/-- An upsert takes place only with all counters of its row and no group the row has already,
and, unless it carries no request, it is known to have taken place and the DEL follows it,
while nobody has touched the counters. -/
def careful (s : State) : Act → Bool
  | .record .. | .flush => true
  | .resume k reply => s.flushes[k]?.all fun pending =>
    match pending, reply with
    | .upsert bucket read _, .value _ => bucket.covers read && s.apart bucket
    | .upsert bucket read _, .error true =>
      bucket.covers read && s.apart bucket && keyValues bucket read .totalRequests = 0
    | .del bucket read _, reply =>
      if reply.executed then s.unchanged bucket read else keyValues bucket read .totalRequests = 0
    | _, _ => true

/-- The counts a flush has stored and not yet taken out of Redis. -/
def Pending.owed (row : KeyDate) : Pending → Nat
  | .del bucket read _ => if bucket.row = row then keyValues bucket read .totalRequests else 0
  | _ => 0

/-- What a flush has read is consistent, and complete once it is stored. -/
def Pending.Sound : Pending → Prop
  | .upsert _ read _ => ∑ endpointGroup, read (.endpoint endpointGroup) = read .totalRequests
  | .del bucket read _ => ∑ endpointGroup, read (.endpoint endpointGroup) = read .totalRequests ∧
      bucket.covers read = true
  | _ => True

structure Balanced (s : State) : Prop where
  requests : ∀ row, s.stored row + s.counters row .totalRequests =
    s.recorded row + (s.flushes.map (Pending.owed row)).sum
  live : ∀ row, ∑ endpointGroup, s.counters row (.endpoint endpointGroup) = s.counters row .totalRequests
  distribution : ∀ row daily, s.rows row = some daily →
    ∑ endpointGroup, (daily.endpointDistribution endpointGroup).getD 0 = daily.totalRequests
  sound : ∀ pending ∈ s.flushes, pending.Sound

/-- The sum over a list follows the share that changes. -/
theorem sum_set {shares : List Nat} {k share : Nat} (next : Nat) (found : shares[k]? = some share) :
    (shares.set k next).sum + share = shares.sum + next := by
  induction shares generalizing k with
  | nil => contradiction
  | cons first rest ih =>
    cases k with
    | zero =>
      cases found
      simp only [List.set_cons_zero, List.sum_cons]
      omega
    | succ k =>
      have tail := ih (k := k) found
      simp only [List.set_cons_succ, List.sum_cons]
      omega

theorem endpoint_counted (endpointGroup : EndpointGroup) : .endpoint endpointGroup ∈ countedMetrics :=
  List.mem_cons_of_mem _ (List.mem_map_of_mem (by cases endpointGroup <;> decide))

theorem keyValues_of_covers {bucket : Bucket} {read : Metric → Nat} (covers : bucket.covers read = true)
    (metric : Metric) (counted : metric ∈ countedMetrics) :
    keyValues bucket read metric = read metric := by
  have listed := of_decide_eq_true covers metric counted
  unfold keyValues
  split
  · rfl
  · rename_i missing
    by_contra differs
    exact missing (listed fun zero => differs zero.symm)

/-- A flush goes on: the counts, the rows and what it owes move together. -/
theorem Balanced.advance {s t : State} {k : Nat} {pending next : Pending} (balanced : Balanced s)
    (found : s.flushes[k]? = some pending) (recorded : t.recorded = s.recorded)
    (requests : ∀ row, t.stored row + t.counters row .totalRequests + pending.owed row =
      s.stored row + s.counters row .totalRequests + next.owed row)
    (live : ∀ row, ∑ endpointGroup, t.counters row (.endpoint endpointGroup) = t.counters row .totalRequests)
    (distribution : ∀ row daily, t.rows row = some daily →
      ∑ endpointGroup, (daily.endpointDistribution endpointGroup).getD 0 = daily.totalRequests)
    (sound : next.Sound) : Balanced { t with flushes := s.flushes.set k next } := by
  constructor
  · intro row
    have moved := requests row
    have before := balanced.requests row
    have owed : (s.flushes.map (Pending.owed row))[k]? = some (pending.owed row) := by
      rw [List.getElem?_map, found]
      rfl
    have sums := sum_set (next.owed row) owed
    rw [← List.map_set] at sums
    change t.stored row + t.counters row .totalRequests =
      t.recorded row + ((s.flushes.set k next).map (Pending.owed row)).sum
    rw [recorded]
    omega
  · exact live
  · exact distribution
  · exact Transition.forall_mem_set k balanced.sound sound

/-- A flush goes on without touching anything, and owes nothing. -/
theorem Balanced.goto {s : State} {k : Nat} {pending next : Pending} (balanced : Balanced s)
    (found : s.flushes[k]? = some pending) (before : ∀ row, pending.owed row = 0)
    (after : ∀ row, next.owed row = 0) (sound : next.Sound) :
    Balanced { s with flushes := s.flushes.set k next } := by
  apply balanced.advance found rfl _ balanced.live balanced.distribution sound
  intro row
  rw [before, after]

theorem next_owed (rest : List Bucket) (row : KeyDate) : (next rest).owed row = 0 := by
  cases rest <;> rfl

theorem next_sound (rest : List Bucket) : (next rest).Sound := by
  cases rest <;> trivial

theorem stored_upsert (s : State) (bucket : Bucket) (read : Metric → Nat) (row : KeyDate) :
    (upsert s bucket read).stored row =
      s.stored row + if bucket.row = row then keyValues bucket read .totalRequests else 0 := by
  by_cases same : bucket.row = row
  · subst same
    cases found : s.rows bucket.row <;> simp [State.stored, upsert, found, UsageDaily.update, excluded]
  · simp [State.stored, upsert, Function.update_of_ne (Ne.symm same), same]

/-- Where the groups of a bucket have no count in the row, both distributions add up. -/
theorem distribution_upsert {s : State} {bucket : Bucket} {read : Metric → Nat} (balanced : Balanced s)
    (consistent : ∑ endpointGroup, read (.endpoint endpointGroup) = read .totalRequests)
    (covers : bucket.covers read = true) (apart : s.apart bucket = true) :
    ∀ row daily, (upsert s bucket read).rows row = some daily →
      ∑ endpointGroup, (daily.endpointDistribution endpointGroup).getD 0 = daily.totalRequests := by
  intro row daily found
  by_cases same : row = bucket.row
  · subst same
    simp only [upsert, Function.update_self, Option.some.injEq] at found
    have total : (excluded bucket read).totalRequests = read .totalRequests :=
      keyValues_of_covers covers .totalRequests List.mem_cons_self
    have new (endpointGroup : EndpointGroup) :
        ((excluded bucket read).endpointDistribution endpointGroup).getD 0 = read (.endpoint endpointGroup) := by
      rw [← keyValues_of_covers covers _ (endpoint_counted endpointGroup)]
      simp only [excluded]
      split
      · rfl
      · rename_i missing
        simp [keyValues, missing]
    cases before : s.rows bucket.row with
    | none =>
      rw [before] at found
      cases found
      simp only [Option.elim_none, new, consistent, total]
    | some old =>
      rw [before] at found
      cases found
      have merged (endpointGroup : EndpointGroup) :
          (((old.update (excluded bucket read)).endpointDistribution endpointGroup).getD 0) =
            (old.endpointDistribution endpointGroup).getD 0 + read (.endpoint endpointGroup) := by
        rw [← new endpointGroup]
        have unset := of_decide_eq_true apart endpointGroup
        simp only [before, Option.bind_some] at unset
        simp only [UsageDaily.update, excluded]
        split
        · rename_i listed
          simp [unset listed]
        · simp
      simp only [Option.elim_some, merged, Finset.sum_add_distrib, consistent,
        balanced.distribution bucket.row old before]
      rw [UsageDaily.update, total]
  · simp only [upsert, Function.update_of_ne same] at found
    exact balanced.distribution row daily found

/-- An upsert adds what the flush read; what follows it owes the same. -/
theorem upsert_balanced {s : State} {k : Nat} {bucket : Bucket} {read : Metric → Nat} {rest : List Bucket}
    {next : Pending} (balanced : Balanced s) (found : s.flushes[k]? = some (.upsert bucket read rest))
    (covers : bucket.covers read = true) (apart : s.apart bucket = true)
    (owed : ∀ row, next.owed row = if bucket.row = row then keyValues bucket read .totalRequests else 0)
    (sound : next.Sound) : Balanced { upsert s bucket read with flushes := s.flushes.set k next } := by
  have consistent := balanced.sound _ (List.mem_of_getElem? found)
  refine balanced.advance (t := upsert s bucket read) found rfl ?_ balanced.live
    (distribution_upsert balanced consistent covers apart) sound
  intro row
  have counters : (upsert s bucket read).counters = s.counters := rfl
  rw [stored_upsert, owed, counters]
  simp only [Pending.owed]
  omega

/-- What a DEL takes out is what was read: each counter loses just that. -/
theorem del_counters {s : State} {bucket : Bucket} {read : Metric → Nat} (covers : bucket.covers read = true)
    (unchanged : s.unchanged bucket read = true) (metric : Metric) (counted : metric ∈ countedMetrics) :
    s.counters bucket.row metric = read metric + (del s bucket).counters bucket.row metric := by
  simp only [del, Function.update_self]
  split
  · rename_i listed
    exact of_decide_eq_true unchanged metric counted listed
  · rename_i missing
    have none : read metric = 0 := by
      rw [← keyValues_of_covers covers metric counted, keyValues, if_neg missing]
    omega

theorem del_balanced {s : State} {k : Nat} {bucket : Bucket} {read : Metric → Nat} {rest : List Bucket}
    (balanced : Balanced s) (found : s.flushes[k]? = some (.del bucket read rest))
    (unchanged : s.unchanged bucket read = true) :
    Balanced { del s bucket with flushes := s.flushes.set k (next rest) } := by
  obtain ⟨consistent, covers⟩ := balanced.sound _ (List.mem_of_getElem? found)
  have total := del_counters covers unchanged .totalRequests List.mem_cons_self
  have other {row : KeyDate} (differs : row ≠ bucket.row) : (del s bucket).counters row = s.counters row :=
    Function.update_of_ne differs _ _
  refine balanced.advance (t := del s bucket) found rfl ?_ ?_ balanced.distribution (next_sound rest)
  · intro row
    rw [next_owed]
    change s.stored row + (del s bucket).counters row .totalRequests +
      (if bucket.row = row then keyValues bucket read .totalRequests else 0) = _
    by_cases same : row = bucket.row
    · subst same
      rw [if_pos rfl, keyValues_of_covers covers _ List.mem_cons_self]
      omega
    · rw [other same, if_neg (Ne.symm same)]
  · intro row
    by_cases same : row = bucket.row
    · subst same
      have live := balanced.live bucket.row
      have groups : ∑ endpointGroup, s.counters bucket.row (.endpoint endpointGroup) =
          ∑ endpointGroup, read (.endpoint endpointGroup) +
            ∑ endpointGroup, (del s bucket).counters bucket.row (.endpoint endpointGroup) := by
        rw [← Finset.sum_add_distrib]
        exact Finset.sum_congr rfl fun endpointGroup _ =>
          del_counters covers unchanged _ (endpoint_counted endpointGroup)
      omega
    · rw [other same]
      exact balanced.live row

/-- The transaction of a request counts it once in all and once in its group. -/
theorem record_balanced {s : State} (keyId : Option String) (date endpoint : String) (responseBytes : Int)
    (isRateLimited : Bool) (balanced : Balanced s) :
    Balanced (recordRequest s keyId date endpoint responseBytes isRateLimited) := by
  unfold recordRequest
  split
  · exact balanced
  · rename_i keyId _
    constructor
    · intro row
      have requests := balanced.requests row
      simp only [State.stored] at requests ⊢
      by_cases same : row = ⟨keyId, date⟩
      · rw [same] at requests ⊢
        simp only [Function.update_self, increment]
        omega
      · rw [Function.update_of_ne same, Function.update_of_ne same]
        exact requests
    · intro row
      by_cases same : row = ⟨keyId, date⟩
      · rw [same]
        simp [increment, Finset.sum_add_distrib, balanced.live]
      · simp only [Function.update_of_ne same]
        exact balanced.live row
    · exact balanced.distribution
    · exact balanced.sound

theorem resume_balanced {s : State} {k : Nat} {pending : Pending} {reply : Reply} (balanced : Balanced s)
    (found : s.flushes[k]? = some pending) (allowed : careful s (.resume k reply) = true) :
    Balanced { (resume s pending reply).1 with flushes := s.flushes.set k (resume s pending reply).2 } := by
  simp only [careful, found, Option.all_some] at allowed
  have sound := balanced.sound _ (List.mem_of_getElem? found)
  cases pending with
  | client =>
    cases reply <;> exact balanced.goto found (fun _ => rfl) (fun _ => rfl) trivial
  | scan =>
    cases reply with
    | value usageKeys => exact balanced.goto found (fun _ => rfl) (next_owed _) (next_sound _)
    | error executed => exact balanced.goto found (fun _ => rfl) (fun _ => rfl) trivial
  | get bucket rest =>
    cases reply with
    | value usageKeys => exact balanced.goto found (fun _ => rfl) (fun _ => rfl) (balanced.live bucket.row)
    | error executed => exact balanced.goto found (fun _ => rfl) (fun _ => rfl) trivial
  | upsert bucket read rest =>
    match reply with
    | .value usageKeys =>
      simp only [Bool.and_eq_true] at allowed
      exact upsert_balanced balanced found allowed.1 allowed.2 (fun _ => rfl) ⟨sound, allowed.1⟩
    | .error true =>
      simp only [Bool.and_eq_true, decide_eq_true_eq] at allowed
      obtain ⟨⟨covers, apart⟩, none⟩ := allowed
      refine upsert_balanced balanced found covers apart (fun row => ?_) (next_sound rest)
      simp only [resume, next_owed, none, ite_self]
    | .error false => exact balanced.goto found (fun _ => rfl) (next_owed _) (next_sound _)
  | del bucket read rest =>
    simp only [resume]
    split
    · rename_i executed
      simp only [executed, if_true] at allowed
      exact del_balanced balanced found allowed
    · rename_i failed
      simp only [failed] at allowed
      refine balanced.goto found (fun row => ?_) (next_owed _) (next_sound _)
      simp only [Pending.owed, of_decide_eq_true allowed, ite_self]
  | ended =>
    cases reply <;> exact balanced.goto found (fun _ => rfl) (fun _ => rfl) trivial

theorem step_balanced {s t : State} {a : Act} (balanced : Balanced s) (allowed : careful s a = true)
    (stepped : step s a = some t) : Balanced t := by
  cases a with
  | record keyId date endpoint responseBytes isRateLimited =>
    cases stepped
    exact record_balanced keyId date endpoint responseBytes isRateLimited balanced
  | flush =>
    cases stepped
    refine ⟨fun row => ?_, balanced.live, balanced.distribution, fun pending member => ?_⟩
    · have requests := balanced.requests row
      simpa [State.stored, Pending.owed] using requests
    · rcases List.mem_append.mp member with old | new
      · exact balanced.sound pending old
      · rw [List.mem_singleton.mp new]
        trivial
  | resume k reply =>
    obtain ⟨pending, found, rfl⟩ := Option.map_eq_some_iff.mp stepped
    exact resume_balanced balanced found allowed

theorem Balanced.exact {s : State} (balanced : Balanced s) : Exact s := by
  constructor
  · intro row quiet
    have requests := balanced.requests row
    have none : (s.flushes.map (Pending.owed row)).sum = 0 := by
      apply List.sum_eq_zero
      intro owed member
      obtain ⟨pending, listed, rfl⟩ := List.mem_map.mp member
      cases pending with
      | del bucket read rest => exact if_neg (quiet bucket read rest listed)
      | _ => rfl
    omega
  · exact balanced.distribution

/-- In a run whose steps are all careful, nothing is lost and nothing counted twice. -/
theorem careful_exact {s : State} (reached : system.ReachableWhen (fun s a => careful s a = true) s) :
    Exact s := by
  have balanced : Balanced s := by
    refine reached.invariant ?_ step_balanced
    rintro _ rfl
    exact ⟨fun _ => rfl, fun _ => Finset.sum_const_zero, fun _ _ => nofun, nofun⟩
  exact balanced.exact

def used (endpoint : String) : Act := .record (some "key") "2026-03-01" endpoint 512 false

def keysOf (groups : List EndpointGroup) : List UsageKey :=
  [.totalRequests, .dataTransferBytes].map (UsageKey.mk ⟨"key", "2026-03-01"⟩) ++
    groups.map fun endpointGroup => ⟨⟨"key", "2026-03-01"⟩, .endpoint endpointGroup⟩

def flushed (k : Nat) (groups : List EndpointGroup) : List Act :=
  [.flush, .resume k (.value []), .resume k (.value (keysOf groups)), .resume k (.value []),
    .resume k (.value []), .resume k (.value [])]

/-- Two groups are flushed one after the other, with an upsert that fails in between. -/
def twoGroups : List Act :=
  [used "/api/events/7"] ++ flushed 0 [.events] ++ [used "/api/wallet?id=1", .flush,
    .resume 1 (.value []), .resume 1 (.value (keysOf [.search])), .resume 1 (.value []),
    .resume 1 (.error false)] ++ flushed 2 [.search]

theorem twoGroups_exact : ∃ s, system.run unused twoGroups = some s ∧
    s.stored ⟨"key", "2026-03-01"⟩ = 2 ∧ Exact s :=
  ⟨_, rfl, rfl, careful_exact (Transition.System.reachableWhen_of_run system unused twoGroups rfl
    (Transition.System.guarded_of_guardedBy careful (fun _ _ => id) rfl) rfl)⟩

/-- The same group is flushed twice. -/
def sameGroup : List Act :=
  [used "/api/events"] ++ flushed 0 [.events] ++ [used "/api/events"] ++ flushed 1 [.events]

/-- The row counts two requests, and its distribution one. -/
theorem sameGroup_inexact : ¬ ∀ s, system.Reachable s → Exact s := by
  intro claim
  have reached := Transition.System.reachable_of_run system unused sameGroup rfl rfl
  exact absurd ((claim _ reached).distribution ⟨"key", "2026-03-01"⟩ _ rfl) (by decide)

end Octraban.Usage
