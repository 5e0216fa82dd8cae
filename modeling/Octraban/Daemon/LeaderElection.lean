import Octraban.Core.Interleaving

/-! leaderElection.js: instances compete for one Redis key. `renewLock` and
`releaseLock` read the key by one command and act on it by another. -/
namespace Octraban.LeaderElection
open Interleaving

/-- Value and remaining seconds of `LEADER_KEY`. -/
structure Lease where
  holder : String
  ttl : Nat
  deriving DecidableEq, Repr

structure World (I : Type*) where
  lease : Option Lease
  isLeader : I → Bool

inductive Request (I : Type*) where
  | tryAcquireLock (self : I)
  | renewLock (self : I)
  | releaseLock (self : I)

/-- The Redis command a call waits for, or the reply it has not yet looked at. -/
inductive Pending where
  | set
  | setReply (ok : Bool)
  | renewGet
  | renewReply (current : Option String)
  | expire
  | releaseGet
  | releaseReply (current : Option String)
  | del
  | delReply
  deriving DecidableEq, Repr

structure Call (I : Type*) where
  self : I
  pending : Pending
  deriving DecidableEq

/-- One second of the key's life. The lease ends with its last second. -/
inductive Event where
  | tick

variable {I : Type*} [DecidableEq I]

def World.setLeader (w : World I) (i : I) (b : Bool) : World I :=
  { w with isLeader := Function.update w.isLeader i b }

def start (w : World I) : Request I → Option (World I × Option (Call I))
  | .tryAcquireLock i => some (w, some ⟨i, .set⟩)
  | .renewLock i => if w.isLeader i then some (w, some ⟨i, .renewGet⟩) else some (w, none)
  | .releaseLock i => if w.isLeader i then some (w, some ⟨i, .releaseGet⟩) else some (w, none)

variable (instanceId : I → String) (leaseTtl : Nat)

def resume (w : World I) (call : Call I) : Unit → Option (World I × Option (Call I))
  | () => match call.pending with
    | .set =>
      -- SET NX EX writes only when the key is absent
      match w.lease with
      | none => some ({ w with lease := some ⟨instanceId call.self, leaseTtl⟩ },
          some { call with pending := .setReply true })
      | some _ => some (w, some { call with pending := .setReply false })
    | .setReply ok => some (if ok then w.setLeader call.self true else w, none)
    | .renewGet =>
      some (w, some { call with pending := .renewReply (w.lease.map Lease.holder) })
    | .renewReply current =>
      if current = some (instanceId call.self) then some (w, some { call with pending := .expire })
      else some (w.setLeader call.self false, none)
    | .expire =>
      some ({ w with lease := w.lease.map fun lease => { lease with ttl := leaseTtl } }, none)
    | .releaseGet =>
      some (w, some { call with pending := .releaseReply (w.lease.map Lease.holder) })
    | .releaseReply current =>
      if current = some (instanceId call.self) then some (w, some { call with pending := .del })
      else some (w.setLeader call.self false, none)
    | .del => some ({ w with lease := none }, some { call with pending := .delReply })
    | .delReply => some (w.setLeader call.self false, none)

def environment (w : World I) : Event → Option (World I)
  | .tick => some { w with lease := w.lease.bind fun lease =>
      if lease.ttl ≤ 1 then none else some { lease with ttl := lease.ttl - 1 } }

def program : Program (World I) (Call I) (Request I) Unit Event where
  start := start
  resume := resume instanceId leaseTtl
  environment := environment

/-- A lease of an earlier process may still be alive when the instances start. -/
def system : Transition.System (Config (World I) (Call I)) (Act (Request I) Unit Event) :=
  (program instanceId leaseTtl).system fun w => w.isLeader = fun _ => false

/-- The step executes EXPIRE or DEL while the key holds another instance's id. -/
def Oversteps (c : Config (World I) (Call I)) (a : Act (Request I) Unit Event) : Prop :=
  ∃ k call lease, a = .resume k () ∧ c.live k = some call ∧
    (call.pending = .expire ∨ call.pending = .del) ∧
    c.world.lease = some lease ∧ lease.holder ≠ instanceId call.self

/-- GET has returned the caller's own id and the EXPIRE or DEL that relies on
it has not run yet. -/
def Checked (call : Call I) : Prop :=
  call.pending = .renewReply (some (instanceId call.self)) ∨ call.pending = .expire ∨
  call.pending = .releaseReply (some (instanceId call.self)) ∨ call.pending = .del

/-- No SET NX takes a free key while a call of another id is between its GET
and its EXPIRE or DEL. -/
def Unraced (c : Config (World I) (Call I)) (a : Act (Request I) Unit Event) : Prop :=
  ∀ k call, a = .resume k () → c.live k = some call → call.pending = .set →
    c.world.lease = none → ∀ j other, c.live j = some other → Checked instanceId other →
      instanceId other.self = instanceId call.self

/-- What a checked call relies on: nobody else's id is in the key. -/
def Relies (w : World I) (call : Call I) : Prop :=
  Checked instanceId call → ∀ lease, w.lease = some lease → lease.holder = instanceId call.self

variable {instanceId leaseTtl}

/-- A segment leaves the key as it was, drops it, takes it when it is free, or
extends it under the same value. -/
inductive Rekeyed (instanceId : I → String) (call : Call I) : Option Lease → Option Lease → Prop where
  | same : Rekeyed instanceId call lease lease
  | dropped : Rekeyed instanceId call lease none
  | taken : call.pending = .set → Rekeyed instanceId call none (some ⟨instanceId call.self, ttl⟩)
  | extended : Rekeyed instanceId call (some lease) (some { lease with ttl := ttl })

theorem resume_rekeys {w w' : World I} {call : Call I} {next : Option (Call I)}
    (resumed : resume instanceId leaseTtl w call () = some (w', next)) :
    Rekeyed instanceId call w.lease w'.lease := by
  obtain ⟨self, pending⟩ := call
  cases pending with
  | set =>
    cases free : w.lease with
    | none =>
      simp only [resume, free, Option.some.injEq, Prod.mk.injEq] at resumed
      obtain ⟨rfl, -⟩ := resumed
      exact .taken rfl
    | some lease =>
      simp only [resume, free, Option.some.injEq, Prod.mk.injEq] at resumed
      obtain ⟨rfl, -⟩ := resumed
      exact free ▸ .same
  | setReply ok =>
    cases ok <;> cases resumed <;> exact .same
  | renewGet | releaseGet =>
    cases resumed
    exact .same
  | renewReply current | releaseReply current =>
    simp only [resume] at resumed
    split at resumed <;> cases resumed <;> exact .same
  | expire =>
    cases resumed
    cases w.lease with
    | none => exact .same
    | some lease => exact .extended
  | del =>
    cases resumed
    exact .dropped
  | delReply =>
    cases resumed
    exact .same

/-- Only a GET that read the caller's own id makes a call checked. -/
theorem resume_checked {w w' : World I} {call next : Call I}
    (resumed : resume instanceId leaseTtl w call () = some (w', some next)) :
    next.self = call.self ∧ (Checked instanceId next →
      (Checked instanceId call ∧ w' = w) ∨
      (w.lease.map Lease.holder = some (instanceId call.self) ∧ w' = w)) := by
  obtain ⟨self, pending⟩ := call
  cases pending with
  | set =>
    simp only [resume] at resumed
    split at resumed <;> cases resumed <;> simp [Checked]
  | setReply ok => cases resumed
  | renewGet | releaseGet =>
    cases resumed
    simp [Checked]
  | renewReply current | releaseReply current =>
    simp only [resume] at resumed
    split at resumed
    · rename_i own
      cases resumed
      simp [Checked, own]
    · cases resumed
  | expire | delReply => cases resumed
  | del =>
    cases resumed
    simp [Checked]

omit [DecidableEq I] in
theorem Relies.rekeyed {w w' : World I} {call other : Call I} (relies : Relies instanceId w other)
    (moved : Rekeyed instanceId call w.lease w'.lease)
    (unraced : call.pending = .set → w.lease = none → Checked instanceId other →
      instanceId other.self = instanceId call.self) : Relies instanceId w' other := by
  intro checked lease held
  generalize before : w.lease = old at moved
  generalize after : w'.lease = new at moved held
  cases moved with
  | same => exact relies checked lease (before.trans held)
  | dropped => contradiction
  | taken free =>
    cases held
    exact (unraced free before checked).symm
  | extended =>
    cases held
    have own := relies checked _ before
    exact own

theorem relies_preserved {c c' : Config (World I) (Call I)} {a : Act (Request I) Unit Event}
    (holds : c.Holds (fun _ => True) (Relies instanceId)) (unraced : Unraced instanceId c a)
    (stepped : (program instanceId leaseTtl).step c a = some c') :
    c'.Holds (fun _ => True) (Relies instanceId) := by
  cases Program.step_cases stepped with
  | @start k request w l idle started =>
    have kept : w = c.world ∧ ∀ call, l = some call → ¬ Checked instanceId call := by
      cases request <;> simp only [program, start] at started <;> (try split at started) <;>
        cases started <;> simp [Checked]
    obtain ⟨rfl, unchecked⟩ := kept
    exact Config.holds_put trivial (fun call started checked => absurd checked (unchecked call started))
      fun _ _ _ found => holds.live found
  | @resume k call choice w l found resumed =>
    have moved := resume_rekeys resumed
    refine Config.holds_put trivial (fun next continued => ?_) fun j other _ waiting => ?_
    · subst continued
      obtain ⟨same, origin⟩ := resume_checked resumed
      intro checked lease held
      rcases origin checked with ⟨before, rfl⟩ | ⟨read, rfl⟩
      · exact same ▸ holds.live found before lease held
      · rw [held] at read
        exact same ▸ Option.some.inj read
    · exact (holds.live waiting).rekeyed moved fun setting free checked =>
        unraced k call rfl found setting free j other waiting checked
  | abort found => exact holds.abort
  | @environment event w moved =>
    refine ⟨trivial, fun waiting checked lease held => ?_⟩
    cases event
    cases moved
    obtain ⟨old, alive, left⟩ := Option.bind_eq_some_iff.mp held
    split at left
    · contradiction
    · cases left
      exact holds.live waiting checked old alive

/-- In runs without such a race, no EXPIRE or DEL meets another instance's id. -/
theorem unraced_never_oversteps {c : Config (World I) (Call I)}
    (reached : (system instanceId leaseTtl).ReachableWhen (Unraced instanceId) c)
    (a : Act (Request I) Unit Event) : ¬ Oversteps instanceId c a := by
  have holds : c.Holds (fun _ => True) (Relies instanceId) :=
    reached.invariant (fun {_} (start : _ ∧ _) => Config.holds_idle trivial start.2) relies_preserved
  rintro ⟨k, call, lease, -, found, acting, held, foreign⟩
  refine foreign (holds.live found ?_ lease held)
  rcases acting with expire | del
  · exact .inr (.inl expire)
  · exact .inr (.inr (.inr del))

def twoIds : Bool → String
  | false => "1-1700000000000"
  | true => "1-1700000000001"

def idle : Config (World Bool) (Call Bool) := ⟨⟨none, fun _ => false⟩, fun _ => none⟩

/-- One instance takes the lease and renews it, up to the pending EXPIRE. -/
def renewal : List (Act (Request Bool) Unit Event) :=
  [.start 0 (.tryAcquireLock false), .resume 0 (), .resume 0 (),
    .start 1 (.renewLock false), .resume 1 (), .resume 1 ()]

/-- The lease runs out after the GET and another instance takes it. -/
def overtaken : List (Act (Request Bool) Unit Event) :=
  renewal ++ List.replicate 10 (.environment .tick) ++ [.start 2 (.tryAcquireLock true), .resume 2 ()]

theorem renewal_guarded : (system twoIds 10).Guarded (Unraced twoIds) idle renewal := by
  have elsewhere : ∀ (c : Config (World Bool) (Call Bool)) (k : Nat) (call : Call Bool),
      c.live k = some call → call.pending ≠ .set → Unraced twoIds c (.resume k ()) := by
    intro c k call found other j taken same found' setting
    cases same
    cases found.symm.trans found'
    exact absurd setting other
  simp only [renewal, Transition.System.Guarded]
  rintro _ ⟨⟩
  refine ⟨by simp [Unraced], ?_⟩
  rintro _ ⟨⟩
  refine ⟨?_, ?_⟩
  · -- the only call in flight is the one that sets the key
    rintro k call ⟨⟩ found setting free j other waiting checked
    simp only [Config.put, idle, Function.update_apply] at waiting
    split at waiting <;> cases waiting
    simp [Checked] at checked
  rintro _ ⟨⟩
  refine ⟨elsewhere _ 0 _ rfl (by decide), ?_⟩
  rintro _ ⟨⟩
  refine ⟨by simp [Unraced], ?_⟩
  rintro _ ⟨⟩
  refine ⟨elsewhere _ 1 _ rfl (by decide), ?_⟩
  rintro _ ⟨⟩
  exact ⟨elsewhere _ 1 _ rfl (by decide), trivial⟩

theorem renewal_never_oversteps : ∃ c, (system twoIds 10).run idle renewal = some c ∧
    ¬ Oversteps twoIds c (.resume 1 ()) :=
  ⟨_, rfl, unraced_never_oversteps (Transition.System.reachableWhen_of_run (system twoIds 10) idle
    renewal ⟨rfl, rfl⟩ renewal_guarded rfl) _⟩

theorem overtaken_oversteps :
    ¬ ∀ c, (system twoIds 10).Reachable c → ∀ a, ¬ Oversteps twoIds c a := by
  intro safe
  have reached := Transition.System.reachable_of_run (system twoIds 10) idle overtaken ⟨rfl, rfl⟩ rfl
  exact safe _ reached (.resume 1 ())
    ⟨1, ⟨false, .expire⟩, ⟨"1-1700000000001", 10⟩, rfl, rfl, .inl rfl, rfl, by decide⟩

end Octraban.LeaderElection
