import Octraban.Core.Interleaving
import Octraban.Core.Objects
import Octraban.Indexer.LruCache

/-! cacheLayer.js, the `cacheAside` calls on one key: a read through both layers of the cache, and a
loader for an entry that is missing or, by XFetch, about to expire. A loader that throws is one of
its answers; runs in which a call is aborted come on top. -/
namespace Octraban.CacheAside
open Interleaving
open LruCache (LRUCache)

/-- The `l1` seconds of a type. -/
def getTTL (type : String) : Int :=
  -- what every object inherits has no `l1`
  if type ∈ JavaScript.inherited then 0
  else match type with
    | "events_list" => 5
    | "events_single" => 10
    | "contracts_list" => 30
    | "contracts_single" => 60
    | "search" => 0
    | "stats" => 60
    | _ => 30

inductive TtlOrType where
  | type (name : String)
  | seconds (n : Int)

namespace TtlOrType

def cacheType : TtlOrType → String
  | type name => name
  | seconds _ => "default"

def l1Ttl : TtlOrType → Int
  | type name => getTTL name
  | seconds n => n

end TtlOrType

/-- What Redis keeps under a key. -/
structure Wrapped (V : Type) where
  value : V
  computeMs : Option Int
  type : Option String

structure Hit (V : Type) where
  value : V
  xfetch : Bool

inductive Loaded (V : Type) where
  | threw
  | nullish
  | value (v : V)

/-- `recomputing` tells whether `_recomputing` has the key. -/
structure World (V : Type) where
  now : Int
  l1 : LRUCache V
  recomputing : Bool

/-- A call, with `-Math.log(Math.random())` as its read will draw it. -/
structure Request where
  ttlOrType : TtlOrType
  surprise : ℚ

inductive Pending (V : Type) where
  | l2
  | hit (hit : Option (Hit V))
  | loader (early : Bool) (start : Int)
  | cacheSet

structure Task (V : Type) where
  ttlOrType : TtlOrType
  pending : Pending V

/-- What a pending call returns. Redis finds nothing also when it fails or is absent. -/
inductive Answer (V : Type) where
  | redis (found : Option (Wrapped V))
  | proceed
  | loaded (result : Loaded V)
  | written

/-- Calls on other keys, writes, invalidations and evictions reach the in-process cache at any time. -/
inductive Event (V : Type) where
  | clock (now : Int)
  | other (call : LruCache.Call V)

variable {V : Type}

def shouldXFetch (beta : ℚ) (now : Int) (entry : LruCache.Entry V) (surprise : ℚ) : Bool :=
  1 ≤ entry.computeMs ∧ (entry.expiresAt : ℚ) ≤ now + beta * entry.computeMs * surprise

def World.setL1 (w : World V) (key : String) (value : V) (ttl computeMs : Int) : World V :=
  if ttl > 0 then { w with l1 := w.l1.set w.now key value (ttl * 1000) computeMs } else w

def World.finish (w : World V) : World V := { w with recomputing := false }

variable (beta : ℚ) (key : String)

def start (w : World V) (request : Request) : Option (World V × Option (Task V)) :=
  let (entry, l1) := w.l1.get w.now key
  match entry with
  | some entry =>
    let hit : Hit V := ⟨entry.value, shouldXFetch beta w.now entry request.surprise⟩
    some ({ w with l1 }, some ⟨request.ttlOrType, .hit (some hit)⟩)
  | none => some ({ w with l1 }, some ⟨request.ttlOrType, .l2⟩)

def resume (w : World V) (task : Task V) (answer : Answer V) : Option (World V × Option (Task V)) :=
  match task.pending, answer with
  | .l2, .redis (some wrapped) =>
    let ttl := getTTL (wrapped.type.getD task.ttlOrType.cacheType)
    some (w.setL1 key wrapped.value ttl (wrapped.computeMs.getD 0),
      some { task with pending := .hit (some ⟨wrapped.value, false⟩) })
  | .l2, .redis none => some (w, some { task with pending := .hit none })
  | .hit (some hit), .proceed =>
    if hit.xfetch = false then some (w, none)
    else if w.recomputing then some (w, none)
    else some ({ w with recomputing := true }, some { task with pending := .loader true w.now })
  | .hit none, .proceed => some (w, some { task with pending := .loader false w.now })
  | .loader _ start, .loaded (.value value) =>
    some (w.setL1 key value task.ttlOrType.l1Ttl (w.now - start), some { task with pending := .cacheSet })
  | .loader .., .loaded .nullish | .loader .., .loaded .threw | .cacheSet, .written => some (w.finish, none)
  | _, _ => none

def environment (w : World V) : Event V → Option (World V)
  | .clock now => some { w with now }
  | .other call => some { w with l1 := w.l1.perform w.now call }

def program : Program (World V) (Task V) Request (Answer V) (Event V) where
  start := start beta key
  resume := resume key
  environment := environment

def system : Transition.System (Config (World V) (Task V)) (Act Request (Answer V) (Event V)) :=
  (program beta key).system fun w => w.recomputing = false

/-- A loader run that XFetch triggered is in progress. -/
def Task.early (task : Task V) : Bool :=
  match task.pending with
  | .loader early _ => early
  | _ => false

/-- At most one early loader run is in progress. -/
def Single (c : Config (World V) (Task V)) : Prop :=
  ∀ j k task other, c.live j = some task → c.live k = some other → task.early → other.early → j = k

/-- The call goes through its `finally`. -/
def Task.finishes (task : Task V) (answer : Answer V) : Bool :=
  match task.pending, answer with
  | .loader .., .loaded .nullish | .loader .., .loaded .threw | .cacheSet, .written => true
  | _, _ => false

/-- No call goes through its `finally` while the early loader of another one runs. -/
def Undisturbed (c : Config (World V) (Task V)) (a : Act Request (Answer V) (Event V)) : Prop :=
  ∀ k answer task, a = .resume k answer → c.live k = some task → task.finishes answer →
    ∀ j other, j ≠ k → c.live j = some other → ¬ other.early

/-! ### What a segment does to the set of keys -/

variable {beta : ℚ} {key : String}

theorem setL1_recomputing (w : World V) (value : V) (ttl computeMs : Int) :
    (w.setL1 key value ttl computeMs).recomputing = w.recomputing := by
  rw [World.setL1]
  split <;> rfl

theorem late_some {task : Task V} (late : task.early = false) : ∀ later ∈ some task, ¬ later.early := by
  rintro later ⟨⟩
  rw [late]
  exact Bool.false_ne_true

/-- It leaves the key as it was and no early loader runs after it, it enters the key for its own
early loader, or it takes the key out as the call ends. -/
inductive Entered (w : World V) (task : Task V) (answer : Answer V) : World V → Option (Task V) → Prop where
  | left : w'.recomputing = w.recomputing → (∀ later ∈ next, ¬ later.early) → Entered w task answer w' next
  | added : w.recomputing = false → w'.recomputing = true → Entered w task answer w' next
  | deleted : task.finishes answer → Entered w task answer w' none

theorem start_left {w w' : World V} {request : Request} {next : Option (Task V)}
    (started : start beta key w request = some (w', next)) :
    w'.recomputing = w.recomputing ∧ ∀ later ∈ next, ¬ later.early := by
  simp only [start] at started
  split at started <;> cases started <;> exact ⟨rfl, late_some rfl⟩

theorem resume_entered {w w' : World V} {task : Task V} {answer : Answer V} {next : Option (Task V)}
    (resumed : resume key w task answer = some (w', next)) : Entered w task answer w' next := by
  obtain ⟨ttlOrType, pending⟩ := task
  cases pending with
  | l2 =>
    cases answer with
    | redis found =>
      cases found with
      | none =>
        cases resumed
        exact .left rfl (late_some rfl)
      | some wrapped =>
        cases resumed
        exact .left (setL1_recomputing ..) (late_some rfl)
    | proceed | loaded | written => cases resumed
  | hit hit =>
    cases answer with
    | proceed =>
      cases hit with
      | none =>
        cases resumed
        exact .left rfl (late_some rfl)
      | some hit =>
        simp only [resume] at resumed
        split at resumed
        · cases resumed
          exact .left rfl (fun _ impossible => by cases impossible)
        · split at resumed
          · cases resumed
            exact .left rfl (fun _ impossible => by cases impossible)
          · rename_i free
            cases resumed
            exact .added (Bool.eq_false_of_not_eq_true free) rfl
    | redis | loaded | written => cases hit <;> cases resumed
  | loader early started =>
    cases answer with
    | loaded result =>
      cases result with
      | value value =>
        cases resumed
        exact .left (setL1_recomputing ..) (late_some rfl)
      | threw =>
        cases resumed
        exact .deleted rfl
      | nullish =>
        cases resumed
        exact .deleted rfl
    | redis | proceed | written => cases resumed
  | cacheSet =>
    cases answer with
    | written =>
      cases resumed
      exact .deleted rfl
    | redis | proceed | loaded => cases resumed

/-! ### Runs -/

/-- A task whose early loader runs has its key in the set, and is the only one. -/
structure Marked (c : Config (World V) (Task V)) : Prop where
  holds : c.Holds (fun _ => True) fun w task => task.early → w.recomputing = true
  single : Single c

theorem Single.put {c : Config (World V) (Task V)} {w : World V} {next : Option (Task V)} (single : Single c)
    (own : ∀ later ∈ next, later.early → ∀ j other, j ≠ k → c.live j = some other → ¬ other.early) :
    Single (c.put k w next) := by
  intro i j task other first second early too
  rcases Config.put_live_some first with ⟨rfl, mine⟩ | ⟨apart, before⟩
  · rcases Config.put_live_some second with ⟨rfl, _⟩ | ⟨apart, before⟩
    · rfl
    · exact absurd too (own task mine early j other apart before)
  · rcases Config.put_live_some second with ⟨rfl, mine⟩ | ⟨_, after⟩
    · exact absurd early (own other mine too i task apart before)
    · exact single i j task other before after early too

/-- A segment that leaves the key as it was. -/
theorem Marked.put {c : Config (World V) (Task V)} {w : World V} {next : Option (Task V)} (marked : Marked c)
    (same : w.recomputing = c.world.recomputing) (late : ∀ later ∈ next, ¬ later.early) :
    Marked (c.put k w next) where
  holds := by
    apply Config.holds_put trivial
    · exact fun later mine early => absurd early (late later mine)
    · exact fun j other _ live early => same ▸ marked.holds.live live early
  single := marked.single.put fun later mine early => absurd early (late later mine)

theorem step_marked {c c' : Config (World V) (Task V)} {a : Act Request (Answer V) (Event V)} (marked : Marked c)
    (undisturbed : Undisturbed c a) (stepped : (system beta key).step c a = some c') : Marked c' := by
  cases Program.step_cases stepped with
  | start _ started =>
    obtain ⟨same, late⟩ := start_left started
    exact marked.put same late
  | @resume k task answer w next found resumed =>
    cases resume_entered resumed with
    | left same late => exact marked.put same late
    | added free entered =>
      have alone (j : Nat) (other : Task V) (_ : j ≠ k) (live : c.live j = some other) : ¬ other.early :=
        fun early => Bool.false_ne_true (free.symm.trans (marked.holds.live live early))
      constructor
      · exact Config.holds_put trivial (fun _ _ _ => entered) fun _ _ _ _ _ => entered
      · exact marked.single.put fun _ _ _ => alone
    | deleted finishes =>
      have alone := undisturbed k answer task rfl found finishes
      constructor
      · apply Config.holds_put trivial
        · exact fun _ ended => nomatch ended
        · exact fun j other apart live early => absurd early (alone j other apart live)
      · exact marked.single.put fun _ ended => nomatch ended
  | abort => exact marked.put rfl fun _ ended => nomatch ended
  | @environment event w moved =>
    have same : w.recomputing = c.world.recomputing := by
      cases event <;> cases moved <;> rfl
    exact ⟨⟨trivial, fun live early => same ▸ marked.holds.live live early⟩, marked.single⟩

/-- In a run in which no call goes through its `finally` while the early loader of another one runs,
at most one early loader run is in progress at any time. -/
theorem recompute_single {c : Config (World V) (Task V)}
    (reached : (system beta key).ReachableWhen Undisturbed c) : Single c := by
  have marked : Marked c := by
    apply reached.invariant _ step_marked
    rintro ⟨w, live⟩ ⟨_, idle⟩
    cases idle
    exact ⟨⟨trivial, nofun⟩, nofun⟩
  exact marked.single

/-- `Undisturbed` for the calls below `n`. -/
def undisturbed (n : Nat) (c : Config (World V) (Task V)) : Act Request (Answer V) (Event V) → Bool
  | .resume k answer => (c.live k).all fun task => !task.finishes answer ||
      (List.range n).all fun j => j = k || (c.live j).all fun other => !other.early
  | _ => true

theorem undisturbed_sound {n : Nat} (c : Config (World V) (Task V)) (a : Act Request (Answer V) (Event V))
    (idle : ∀ k, n ≤ k → c.live k = none) (checked : undisturbed n c a = true) : Undisturbed c a := by
  rintro k answer task rfl found finishes j other apart live
  simp only [undisturbed, found, Option.all_some, finishes, Bool.not_true, Bool.false_or, List.all_eq_true] at checked
  have late := checked j (List.mem_range.mpr (Config.lt_of_live idle live))
  simpa [apart, live] using late

/-- One entry that expires at 1000 and took 100 to compute. -/
def cached : Config (World String) (Task String) :=
  ⟨⟨0, (⟨2, .empty⟩ : LRUCache String).set 0 "k" "old" 1000 100, false⟩, fun _ => none⟩

def events : Request := ⟨.type "events_list", 1⟩

/-- While one call recomputes, another returns what it read. -/
theorem recompute_single_pair : ∃ c : Config (World String) (Task String),
    (system 1 "k").run cached [Act.environment (.clock 990), .start 0 events, .start 1 events, .resume 0 .proceed,
      .resume 1 .proceed] = some c ∧ (c.live 0).any Task.early = true ∧ c.live 1 = none ∧ Single c := by
  let labels : List (Act Request (Answer String) (Event String)) :=
    [.environment (.clock 990), .start 0 events, .start 1 events, .resume 0 .proceed, .resume 1 .proceed]
  have guarded : (system 1 "k").Guarded Undisturbed cached labels :=
    Program.guarded_below 2 (undisturbed 2) undisturbed_sound rfl (fun _ _ => rfl) (by decide +kernel)
  have ended : ((system 1 "k").run cached labels).any
      (fun c => (c.live 0).any Task.early && (c.live 1).isNone) = true := by decide +kernel
  obtain ⟨c, executed, both⟩ := (Option.any_eq_true _ _).mp ended
  obtain ⟨loads, returned⟩ := Bool.and_eq_true_iff.mp both
  have reached := Transition.System.reachableWhen_of_run (system 1 "k") cached labels ⟨rfl, rfl⟩ guarded executed
  exact ⟨c, executed, loads, Option.isNone_iff_eq_none.mp returned, recompute_single reached⟩

/-- The entry expires while its early loader runs, a call that misses loads it again and takes the key
out of the set, and a third call starts the second early loader. -/
theorem recompute_single_missed :
    ¬ ∀ c : Config (World String) (Task String), (system 1 "k").Reachable c → Single c := by
  intro claimed
  let labels : List (Act Request (Answer String) (Event String)) :=
    [.environment (.clock 990), .start 0 events, .resume 0 .proceed, .environment (.clock 1001), .start 1 events,
      .resume 1 (.redis none), .resume 1 .proceed, .environment (.clock 1006), .resume 1 (.loaded (.value "new")),
      .resume 1 .written, .environment (.clock 6005), .start 2 events, .resume 2 .proceed]
  have ended : ((system 1 "k").run cached labels).any
      (fun c => (c.live 0).any Task.early && (c.live 2).any Task.early) = true := by decide +kernel
  obtain ⟨c, executed, both⟩ := (Option.any_eq_true _ _).mp ended
  obtain ⟨first, second⟩ := Bool.and_eq_true_iff.mp both
  obtain ⟨task, live, early⟩ := (Option.any_eq_true _ _).mp first
  obtain ⟨other, live', early'⟩ := (Option.any_eq_true _ _).mp second
  have reached := Transition.System.reachable_of_run (system 1 "k") cached labels ⟨rfl, rfl⟩ executed
  exact absurd (claimed c reached 0 2 task other live live' early early') (by decide)

end Octraban.CacheAside
