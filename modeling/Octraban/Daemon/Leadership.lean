import Octraban.Core.Transition
import Mathlib.Data.List.Basic

/-! leaderElection.js, `start`: two timers run the renewal and the election of one
instance. Ticks of a timer overlap while Redis is slow, and Redis may answer anything:
a lease expires, another instance takes it, a command fails. -/
namespace Octraban.Leadership

inductive Callback where
  | onBecomeLeader
  | onLoseLeadership
  deriving DecidableEq

inductive Timer where
  | renew
  | elect

/-- What a tick awaits. `renewed` and `won` are the value the callback of the timer
gets; `cleared` counts the tick's transitions of `_isLeader` from true to false. -/
inductive Pending where
  | renewClient
  | renewGet
  | expire
  | renewed (renewed : Bool) (cleared : Nat)
  | electClient
  | set
  | won (won : Bool)
  | ended
  deriving DecidableEq

inductive Reply where
  | error
  | value (current : Option String)

/-- `renewals` keeps, for each renewal tick that has ended, its transitions of
`_isLeader` from true to false and its calls of `onLoseLeadership`. -/
structure State where
  isLeader : Bool
  callbacks : List Callback
  renewals : List (Nat × Nat)
  ticks : List Pending

/-- `if (!renewed && _isLeader)` of the renewal timer. -/
def afterRenew (s : State) (renewed : Bool) (cleared : Nat) : State :=
  if !renewed && s.isLeader then
    { s with
      isLeader := false
      callbacks := .onLoseLeadership :: s.callbacks
      renewals := (cleared + 1, 1) :: s.renewals }
  else { s with renewals := (cleared, 0) :: s.renewals }

/-- The code of a tick from one await to the next; an error ends in the `catch` of the
timer. A `renewed` or `won` tick awaits no reply. -/
def resume (id : String) (s : State) : Pending → Reply → State × Pending
  | .renewClient, .error => (s, .renewed false 0)
  | .renewClient, .value _ => (s, .renewGet)
  | .renewGet, .error => (s, .renewed false 0)
  | .renewGet, .value current =>
    if current = some id then (s, .expire)
    else ({ s with isLeader := false }, .renewed false s.isLeader.toNat)
  | .expire, .error => (s, .renewed false 0)
  | .expire, .value _ => (s, .renewed true 0)
  | .renewed renewed cleared, _ => (afterRenew s renewed cleared, .ended)
  | .electClient, .error => (s, .won false)
  | .electClient, .value _ => (s, .set)
  | .set, .error => (s, .won false)
  | .set, .value result =>
    if result = some "OK" then ({ s with isLeader := true }, .won true) else (s, .won false)
  | .won won, _ =>
    (if won then { s with callbacks := .onBecomeLeader :: s.callbacks } else s, .ended)
  | .ended, _ => (s, .ended)

def tick (s : State) : Timer → State
  | .renew => if s.isLeader then { s with ticks := s.ticks ++ [.renewClient] } else s
  | .elect => if s.isLeader then s else { s with ticks := s.ticks ++ [.electClient] }

inductive Act where
  | tick (timer : Timer)
  | reply (k : Nat) (reply : Reply)

def step (id : String) (s : State) : Act → Option State
  | .tick timer => some (tick s timer)
  | .reply k reply => s.ticks[k]?.map fun pending =>
    let (t, next) := resume id s pending reply
    { t with ticks := s.ticks.set k next }

def standby : State := ⟨false, [], [], []⟩

def system (id : String) : Transition.System State Act where
  initial s := s = standby
  step := step id

/-- Newest first: no two calls of one callback follow each other, and the first one is
`onBecomeLeader`. -/
def Alternate : List Callback → Prop
  | [] => True
  | .onBecomeLeader :: rest => rest.head? ≠ some .onBecomeLeader ∧ Alternate rest
  | .onLoseLeadership :: rest => rest.head? = some .onBecomeLeader ∧ Alternate rest

/-- Each renewal tick calls `onLoseLeadership` once for each transition it makes. -/
structure Told (s : State) : Prop where
  renewals : ∀ renewal ∈ s.renewals, renewal.2 = renewal.1
  alternate : Alternate s.callbacks

/-- While the flag is up, no GET of a renewal names another holder, no second SET NX
succeeds, and no renewal fails before the callback of the election has run. -/
def attended (id : String) (s : State) : Act → Bool
  | .tick _ => true
  | .reply k reply => s.ticks[k]?.all fun pending => match pending, reply with
    | .renewGet, .value current => current = some id || !s.isLeader
    | .set, .value result => result ≠ some "OK" || !s.isLeader
    | .renewed renewed _, _ => renewed || !s.isLeader || s.ticks.all (· ≠ .won true)
    | _, _ => true

def State.leads (s : State) : Bool := s.callbacks.head? = some .onBecomeLeader

/-- The flag is up when `onBecomeLeader` is the last callback, or is about to be called. -/
structure Announced (s : State) : Prop where
  told : Told s
  pending : ∀ renewed cleared, Pending.renewed renewed cleared ∈ s.ticks → cleared = 0
  flag : s.ticks.count (.won true) + s.leads.toNat = s.isLeader.toNat

variable {id : String}

theorem tick_announced {s : State} (timer : Timer) (announced : Announced s) :
    Announced (tick s timer) := by
  have appends (next : Pending) (won : next ≠ .won true)
      (cleared : ∀ renewed cleared, next ≠ .renewed renewed cleared) :
      Announced { s with ticks := s.ticks ++ [next] } := by
    constructor
    · exact ⟨announced.told.renewals, announced.told.alternate⟩
    · intro renewed n member
      rcases List.mem_append.mp member with before | last
      · exact announced.pending renewed n before
      · exact absurd (List.mem_singleton.mp last).symm (cleared renewed n)
    · have flag := announced.flag
      simp only [State.leads] at flag ⊢
      rw [List.count_append, List.count_singleton, if_neg (by simpa using won)]
      exact flag
  cases timer with
  | renew =>
    simp only [tick]
    split
    · exact appends .renewClient nofun fun _ _ => nofun
    · exact announced
  | elect =>
    simp only [tick]
    split
    · exact announced
    · exact appends .electClient nofun fun _ _ => nofun

/-- A tick goes from `pending` to `next`, and the rest of the state becomes that of `t`. -/
theorem Announced.advance {s t : State} {k : Nat} {pending next : Pending} (announced : Announced s)
    (found : s.ticks[k]? = some pending) (told : Told t)
    (cleared : ∀ renewed n, next = .renewed renewed n → n = 0)
    (flag : s.ticks.count (.won true) + (if next = .won true then 1 else 0) + t.leads.toNat =
      t.isLeader.toNat + (if pending = .won true then 1 else 0)) :
    Announced { t with ticks := s.ticks.set k next } := by
  obtain ⟨bound, same⟩ := List.getElem?_eq_some_iff.mp found
  constructor
  · exact ⟨told.renewals, told.alternate⟩
  · intro renewed n member
    rcases List.mem_or_eq_of_mem_set member with before | last
    · exact announced.pending renewed n before
    · exact cleared renewed n last.symm
  · have listed : pending = .won true → 0 < s.ticks.count (.won true) := by
      intro won
      rw [List.count_pos_iff, ← won]
      exact List.mem_of_getElem? found
    change (s.ticks.set k next).count (.won true) + t.leads.toNat = t.isLeader.toNat
    rw [List.count_set bound, same]
    simp only [beq_iff_eq]
    by_cases won : pending = .won true
    · have positive := listed won
      rw [if_pos won] at flag ⊢
      omega
    · rw [if_neg won] at flag ⊢
      omega

/-- A tick goes on without touching the flag or calling back. -/
theorem Announced.goto {s : State} {k : Nat} {pending next : Pending} (announced : Announced s)
    (found : s.ticks[k]? = some pending) (cleared : ∀ renewed n, next = .renewed renewed n → n = 0)
    (before : pending ≠ .won true) (after : next ≠ .won true) :
    Announced { s with ticks := s.ticks.set k next } := by
  apply announced.advance found announced.told cleared
  rw [if_neg before, if_neg after]
  exact announced.flag

theorem afterRenew_announced {s : State} {k cleared : Nat} {renewed : Bool} (announced : Announced s)
    (found : s.ticks[k]? = some (.renewed renewed cleared))
    (attended : renewed || !s.isLeader || s.ticks.all (· ≠ .won true)) :
    Announced { afterRenew s renewed cleared with ticks := s.ticks.set k .ended } := by
  have flag := announced.flag
  have told := announced.told
  obtain rfl := announced.pending renewed cleared (List.mem_of_getElem? found)
  unfold afterRenew
  split
  · rename_i lost
    simp only [Bool.and_eq_true, Bool.not_eq_true'] at lost
    obtain ⟨rfl, leader⟩ := lost
    have none : s.ticks.count (.won true) = 0 := by
      rw [List.count_eq_zero]
      intro member
      rw [leader] at attended
      have others := List.all_eq_true.mp attended _ member
      contradiction
    have leads : s.callbacks.head? = some .onBecomeLeader := by
      rw [none, leader] at flag
      have leads : s.leads = true := by
        cases leads : s.leads with
        | true => rfl
        | false =>
          rw [leads] at flag
          contradiction
      exact of_decide_eq_true leads
    apply announced.advance found
    · constructor
      · intro renewal member
        rcases List.mem_cons.mp member with rfl | before
        · rfl
        · exact told.renewals renewal before
      · exact ⟨leads, told.alternate⟩
    · exact fun _ _ => nofun
    · simp [none, State.leads]
  · apply announced.advance found
    · constructor
      · intro renewal member
        rcases List.mem_cons.mp member with rfl | before
        · rfl
        · exact told.renewals renewal before
      · exact told.alternate
    · exact fun _ _ => nofun
    · simpa [State.leads] using flag

theorem set_announced {s : State} {k : Nat} (announced : Announced s) (found : s.ticks[k]? = some .set)
    (attended : s.isLeader = false) :
    Announced { s with isLeader := true, ticks := s.ticks.set k (.won true) } := by
  have flag := announced.flag
  rw [attended] at flag
  let t : State := { s with isLeader := true }
  have leads : t.leads = s.leads := rfl
  apply announced.advance (t := t) found
  · exact ⟨announced.told.renewals, announced.told.alternate⟩
  · exact fun _ _ => nofun
  · rw [if_pos rfl, if_neg nofun, leads]
    simp only [t, Bool.toNat_true, Bool.toNat_false] at flag ⊢
    omega

theorem won_announced {s : State} {k : Nat} (announced : Announced s)
    (found : s.ticks[k]? = some (.won true)) :
    Announced { s with callbacks := .onBecomeLeader :: s.callbacks, ticks := s.ticks.set k .ended } := by
  have flag := announced.flag
  have listed : 0 < s.ticks.count (.won true) := List.count_pos_iff.mpr (List.mem_of_getElem? found)
  have most : s.isLeader.toNat ≤ 1 := Bool.toNat_le _
  have leads : s.leads = false := by
    cases leads : s.leads with
    | false => rfl
    | true =>
      rw [leads] at flag
      simp at flag
      omega
  apply announced.advance (t := { s with callbacks := .onBecomeLeader :: s.callbacks }) found
  · exact ⟨announced.told.renewals, of_decide_eq_false leads, announced.told.alternate⟩
  · exact fun _ _ => nofun
  · rw [leads] at flag
    simpa [State.leads] using flag

theorem step_announced {s t : State} {a : Act} (announced : Announced s)
    (allowed : attended id s a = true) (stepped : step id s a = some t) : Announced t := by
  cases a with
  | tick timer =>
    cases stepped
    exact tick_announced timer announced
  | reply k reply =>
    obtain ⟨pending, found, moved⟩ := Option.map_eq_some_iff.mp stepped
    simp only [attended, found, Option.all_some] at allowed
    cases moved
    cases pending with
    | renewClient | expire | electClient =>
      cases reply
      all_goals exact announced.goto found (by simp) nofun nofun
    | renewGet =>
      cases reply with
      | error => exact announced.goto found (by simp) nofun nofun
      | value current =>
        simp only [resume]
        split
        · exact announced.goto found (by simp) nofun nofun
        · rename_i other
          simp only [Bool.or_eq_true, decide_eq_true_eq, Bool.not_eq_true'] at allowed
          have lower := allowed.resolve_left other
          have flag := announced.flag
          apply announced.advance (t := { s with isLeader := false }) found
          · exact ⟨announced.told.renewals, announced.told.alternate⟩
          · rintro _ _ ⟨⟩
            rw [lower]
            rfl
          · rw [lower] at flag
            simpa [State.leads] using flag
    | renewed renewed cleared => exact afterRenew_announced announced found allowed
    | set =>
      cases reply with
      | error => exact announced.goto found (by simp) nofun nofun
      | value result =>
        simp only [resume]
        split
        · rename_i ok
          simp only [ok, ne_eq, not_true_eq_false, decide_false, Bool.false_or,
            Bool.not_eq_true'] at allowed
          have won := set_announced announced found allowed
          exact won
        · exact announced.goto found (by simp) nofun nofun
    | won won =>
      cases won with
      | true => exact won_announced announced found
      | false => exact announced.goto found (by simp) nofun nofun
    | ended => exact announced.goto found (by simp) nofun nofun

/-- In a run whose steps are all attended, `onLoseLeadership` is called once for each
transition, and the callbacks alternate. -/
theorem attended_told (id : String) {s : State}
    (reached : (system id).ReachableWhen (fun s a => attended id s a = true) s) : Told s := by
  have announced : Announced s := by
    refine reached.invariant ?_ step_announced
    rintro _ rfl
    exact ⟨⟨nofun, trivial⟩, fun _ _ => nofun, rfl⟩
  exact announced.told

/-- The election is won. -/
def elected : List Act :=
  [.tick .elect, .reply 0 (.value none), .reply 0 (.value (some "OK")), .reply 0 (.value none)]

/-- One renewal, and one that fails. -/
def failedRenewal : List Act :=
  elected ++ [.tick .renew, .reply 1 (.value none), .reply 1 (.value (some "7-1")),
    .reply 1 (.value (some "1")), .reply 1 (.value none), .tick .renew, .reply 2 (.value none),
    .reply 2 .error, .reply 2 (.value none)]

theorem failedRenewal_told : ∃ s, (system "7-1").run standby failedRenewal = some s ∧
    s.callbacks = [.onLoseLeadership, .onBecomeLeader] ∧ Told s :=
  ⟨_, rfl, rfl, attended_told "7-1" (Transition.System.reachableWhen_of_run (system "7-1") standby
    failedRenewal rfl (Transition.System.guarded_of_guardedBy (attended "7-1") (fun _ _ => id) rfl) rfl)⟩

/-- The lease runs out, another instance takes it and then gives it up: the loss is
never told, and the next election is won again. -/
def stolen : List Act :=
  elected ++ [.tick .renew, .reply 1 (.value none), .reply 1 (.value (some "8-1")),
    .reply 1 (.value none), .tick .elect, .reply 2 (.value none), .reply 2 (.value (some "OK")),
    .reply 2 (.value none)]

theorem stolen_untold : ¬ ∀ (id : String) (s : State), (system id).Reachable s → Told s := by
  intro claim
  have reached := Transition.System.reachable_of_run (system "7-1") standby stolen rfl rfl
  have told := claim "7-1" _ reached
  have once := told.renewals (1, 0) List.mem_cons_self
  contradiction

end Octraban.Leadership
