import Octraban.Core.Transition
import Mathlib.Data.List.Basic

/-! Requests interleaved at their await points over one shared world. A segment
of a request runs to its next pending call; the call itself is executed when the
request is resumed, so any number of other segments may run before it. -/
namespace Interleaving

/-- `start` runs a request up to its first pending call, `resume` executes that
call and runs on to the next. A segment that ends the request leaves `none`. -/
structure Program (W L R C E : Type*) where
  start : W → R → Option (W × Option L)
  resume : W → L → C → Option (W × Option L)
  environment : W → E → Option W

@[ext] structure Config (W L : Type*) where
  world : W
  live : Nat → Option L

/-- An aborted request throws at its pending call: it ends without running it. -/
inductive Act (R C E : Type*) where
  | start (k : Nat) (request : R)
  | resume (k : Nat) (choice : C)
  | abort (k : Nat)
  | environment (event : E)

variable {W L R C E : Type*}

def Config.put (c : Config W L) (k : Nat) (w : W) (l : Option L) : Config W L :=
  ⟨w, Function.update c.live k l⟩

@[simp] theorem Config.put_world (c : Config W L) (k : Nat) (w : W) (l : Option L) :
    (c.put k w l).world = w := rfl

@[simp] theorem Config.put_live_self (c : Config W L) (k : Nat) (w : W) (l : Option L) :
    (c.put k w l).live k = l := by simp [Config.put]

theorem Config.put_live_ne (c : Config W L) (w : W) (l : Option L) (other : j ≠ k) :
    (c.put k w l).live j = c.live j := by simp [Config.put, other]

/-- A request that is suspended after one has gone on is that one or was suspended before. -/
theorem Config.put_live_some {c : Config W L} (found : (c.put k w l).live j = some m) :
    (j = k ∧ l = some m) ∨ (j ≠ k ∧ c.live j = some m) := by
  by_cases same : j = k
  · subst same
    rw [put_live_self] at found
    exact .inl ⟨rfl, found⟩
  · rw [put_live_ne _ _ _ same] at found
    exact .inr ⟨same, found⟩

theorem Config.put_put (c : Config W L) (k : Nat) (v w : W) (l m : Option L) :
    (c.put k v l).put k w m = c.put k w m := by simp [Config.put]

namespace Program
variable (p : Program W L R C E)

def step (c : Config W L) : Act R C E → Option (Config W L)
  | .start k request =>
    match c.live k with
    | some _ => none
    | none => (p.start c.world request).map fun next => c.put k next.1 next.2
  | .resume k choice =>
    (c.live k).bind fun l => (p.resume c.world l choice).map fun next => c.put k next.1 next.2
  | .abort k => (c.live k).map fun _ => c.put k c.world none
  | .environment event => (p.environment c.world event).map fun w => ⟨w, c.live⟩

def system (initial : W → Prop) : Transition.System (Config W L) (Act R C E) where
  initial c := initial c.world ∧ c.live = fun _ => none
  step := p.step

/-- Everything one step can do. -/
inductive Stepped (c : Config W L) : Act R C E → Config W L → Prop where
  | start : c.live k = none → p.start c.world request = some (w, l) →
      Stepped c (.start k request) (c.put k w l)
  | resume : c.live k = some m → p.resume c.world m choice = some (w, l) →
      Stepped c (.resume k choice) (c.put k w l)
  | abort : c.live k = some m → Stepped c (.abort k) (c.put k c.world none)
  | environment : p.environment c.world event = some w →
      Stepped c (.environment event) ⟨w, c.live⟩

variable {p}

theorem step_cases {c c' : Config W L} {a : Act R C E} (stepped : p.step c a = some c') :
    p.Stepped c a c' := by
  cases a with
  | start k request =>
    simp only [step] at stepped
    split at stepped
    · contradiction
    · rename_i idle
      obtain ⟨⟨w, l⟩, started, rfl⟩ := Option.map_eq_some_iff.mp stepped
      exact .start idle started
  | resume k choice =>
    obtain ⟨m, found, segment⟩ := Option.bind_eq_some_iff.mp stepped
    obtain ⟨⟨w, l⟩, resumed, rfl⟩ := Option.map_eq_some_iff.mp segment
    exact .resume found resumed
  | abort k =>
    obtain ⟨m, found, rfl⟩ := Option.map_eq_some_iff.mp stepped
    exact .abort found
  | environment event =>
    obtain ⟨w, moved, rfl⟩ := Option.map_eq_some_iff.mp stepped
    exact .environment moved

end Program

/-- A world invariant together with an assertion on every suspended request. -/
structure Config.Holds (G : W → Prop) (T : W → L → Prop) (c : Config W L) : Prop where
  world : G c.world
  live : c.live k = some l → T c.world l

variable {G : W → Prop} {T : W → L → Prop} {c : Config W L}

theorem Config.holds_idle (world : G c.world) (idle : c.live = fun _ => none) :
    c.Holds G T := by
  refine ⟨world, fun found => ?_⟩
  rw [idle] at found
  contradiction

/-- The proof outline of a request must hold after its own segment, and the
assertions of the others must survive the segment (interference freedom). -/
theorem Config.holds_put (world : G w) (own : ∀ m, l = some m → T w m)
    (others : ∀ j m, j ≠ k → c.live j = some m → T w m) : (c.put k w l).Holds G T := by
  refine ⟨world, fun {j m} found => ?_⟩
  rcases put_live_some found with ⟨rfl, live⟩ | ⟨other, live⟩
  · exact own m live
  · exact others j m other live

theorem Config.Holds.abort (holds : c.Holds G T) : (c.put k c.world none).Holds G T :=
  holds_put holds.world (fun _ ended => nomatch ended) fun _ _ _ found => holds.live found

/-- No two suspended requests hold the same thing. -/
def Config.Apart (holds : L → List X) (c : Config W L) : Prop :=
  ∀ j k l m, j ≠ k → c.live j = some l → c.live k = some m → (holds l).Disjoint (holds m)

theorem Config.Apart.put {holds : L → List X} (apart : c.Apart holds)
    (own : ∀ m, l = some m → ∀ j n, j ≠ k → c.live j = some n → (holds m).Disjoint (holds n)) :
    (c.put k w l).Apart holds := by
  intro i j m n different first second
  rcases put_live_some first with ⟨rfl, mine⟩ | ⟨_, before⟩
  · rw [put_live_ne _ _ _ different.symm] at second
    exact own m mine j n different.symm second
  · rcases put_live_some second with ⟨rfl, mine⟩ | ⟨_, after⟩
    · exact fun _ first second => own n mine i m different before second first
    · exact apart i j m n different before after

def Act.below (n : Nat) : Act R C E → Bool
  | .start k _ => k < n
  | .resume .. | .abort _ | .environment _ => true

theorem Config.lt_of_live {n j : Nat} {l : L} (idle : ∀ k, n ≤ k → c.live k = none) (found : c.live j = some l) : j < n := by
  by_contra large
  rw [idle j (by omega)] at found
  contradiction

theorem Program.idle_step {p : Program W L R C E} {n : Nat} {a : Act R C E} {c' : Config W L}
    (below : Act.below n a = true) (idle : ∀ k, n ≤ k → c.live k = none) (stepped : p.step c a = some c')
    (k : Nat) (large : n ≤ k) : c'.live k = none := by
  have put (j : Nat) (w : W) (l : Option L) (small : j < n) : (c.put j w l).live k = none := by
    rw [Config.put_live_ne _ _ _ (by omega)]
    exact idle k large
  cases step_cases stepped with
  | start => exact put _ _ _ (of_decide_eq_true below)
  | resume found => exact put _ _ _ (Config.lt_of_live idle found)
  | abort found => exact put _ _ _ (Config.lt_of_live idle found)
  | environment => exact idle k large

theorem Program.idle_run {p : Program W L R C E} {initial : W → Prop} (n : Nat) {labels : List (Act R C E)}
    {c' : Config W L} (below : labels.all (Act.below n) = true) (idle : ∀ k, n ≤ k → c.live k = none)
    (executed : (p.system initial).run c labels = some c') (k : Nat) (large : n ≤ k) : c'.live k = none := by
  induction labels generalizing c with
  | nil =>
    cases executed
    exact idle k large
  | cons a rest ih =>
    rw [List.all_cons, Bool.and_eq_true] at below
    obtain ⟨next, stepped, executed⟩ := Option.bind_eq_some_iff.mp executed
    exact ih below.2 (idle_step below.1 idle stepped) executed

/-- In a run of requests numbered below `n` a guard may rely on the rest being idle. -/
theorem Program.guarded_below {p : Program W L R C E} {initial : W → Prop}
    {guard : Config W L → Act R C E → Prop} (n : Nat) (check : Config W L → Act R C E → Bool)
    (sound : ∀ c a, (∀ k, n ≤ k → c.live k = none) → check c a = true → guard c a)
    {labels : List (Act R C E)} (below : labels.all (Act.below n) = true)
    (idle : ∀ k, n ≤ k → c.live k = none)
    (checked : (p.system initial).guardedBy check c labels = true) :
    (p.system initial).Guarded guard c labels := by
  induction labels generalizing c with
  | nil => trivial
  | cons a rest ih =>
    intro next stepped
    rw [List.all_cons, Bool.and_eq_true] at below
    simp only [Transition.System.guardedBy, stepped, Bool.and_eq_true] at checked
    exact ⟨sound c a idle checked.1, ih below.2 (idle_step below.1 idle stepped) checked.2⟩

end Interleaving
