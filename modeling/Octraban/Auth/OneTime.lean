import Octraban.Auth.Credentials
import Mathlib.Data.List.Nodup

/-! What is used once: challenges, flows, authorization codes and refresh tokens,
where the requests on one of them follow each other, no server answers from a stale
copy, and no record is used or rewritten after its expiry. -/
namespace Octraban.Auth
open Interleaving

variable {P : Type*} {outside : Outside}

def MultiSigFlow.SignedBy (flow : MultiSigFlow) (signerAddress : String) : Prop :=
  ∃ s ∈ flow.signers, s.address = signerAddress ∧ s.signed = true

/-- Redis holds what every server reads of a flow once its local copy is gone. -/
structure OneTime (w : World P) : Prop where
  issued : ∀ login : Login,
    w.history.issues.countP (fun issue => issue.credential = login.credential) ≤ 1
  rotated : ∀ refreshToken, w.history.rotations.count refreshToken ≤ 1
  checked : ∀ challengeId, w.history.checks.count challengeId ≤ 3
  accepted : ∀ (login : Login) (now expiresAt : Nat), (login.credential, now) ∈ w.history.accepted →
    (login.credential, expiresAt) ∈ w.history.created → now < expiresAt
  acknowledged : ∀ flowId signerAddress, (flowId, signerAddress) ∈ w.history.acknowledged →
    ∀ entry, (w.flows flowId).redis = some entry → entry.payload.SignedBy signerAddress

/-- No read that decides something sees a stale copy, and a record is read for a
decision or rewritten only before it expires. -/
def prompt [DecidableEq P] (w : World P) (p : P) : Pending → Bool
  | .verifyGet body => (w.challenges body.challengeId).current p w.now
  | .incrementGet body ch => (w.challenges body.challengeId).current p w.now && w.now < ch.expiresAt
  | .incrementSet _ ch _ => w.now < ch.expiresAt
  | .contributeGet body => (w.flows body.authFlowId).current p w.now
  | .completeGet id => (w.flows id).current p w.now &&
    ((w.flows id).redis.filter fun entry => entry.live w.now).all fun entry =>
      entry.payload.completed || w.now < entry.payload.expiresAt
  | _ => true

/-- No request starts while another holds its credential, and every call is prompt. -/
def Orderly [DecidableEq P] (c : Config (World P) (Call P)) :
    Act (Request P) Unit (Event P) → Prop
  | .start _ request => ∀ x, request.route.credential = some x → ∀ k call, c.live k = some call →
    x ∉ call.pending.holds
  | .resume k () => ∀ call, c.live k = some call → prompt c.world call.self call.pending = true
  | .abort _ | .environment _ => True

def View.usage : (x : Credential) → View x → Usage
  | .challenge _, v => ChallengeView.usage v
  | .flow _, v => FlowView.usage v
  | .code _, v => CodeView.usage v
  | .refreshToken _, _ => ⟨0, [], []⟩

/-- Sessions issued, or pairs returned, for the credential. -/
def View.uses : (x : Credential) → View x → Nat
  | .refreshToken _, v => TokenView.rotations v
  | .challenge _, v => (ChallengeView.usage v).issued
  | .flow _, v => (FlowView.usage v).issued
  | .code _, v => (CodeView.usage v).issued

/-- A request that reads the credential now gets nothing it could use. -/
def View.closed (now : Nat) : (x : Credential) → View x → Prop
  | .challenge _, v => ∀ entry, ChallengeView.redis v = some entry → entry.live now = false
  | .flow _, v => ∀ entry, FlowView.redis v = some entry → entry.live now = true →
    entry.payload.completed = true
  | .code _, v => ∀ row ∈ CodeView.rows v, row.used = true
  | .refreshToken _, v => TokenView.holders v = []

structure Counted (now : Nat) (v : ChallengeView) (entry : Entry ChallengeData) : Prop where
  attempts : v.checks ≤ entry.payload.attempts
  lasts : ∀ later, later < entry.payload.expiresAt → entry.live later = true
  recent : entry.payload.expiresAt ≤ now + CHALLENGE_TTL * 1000
  created : ∀ expiresAt ∈ v.usage.created, expiresAt = entry.payload.expiresAt

structure Kept (v : FlowView) (flow : MultiSigFlow) : Prop where
  acknowledged : ∀ signerAddress ∈ v.acknowledged, flow.SignedBy signerAddress
  created : ∀ expiresAt ∈ v.usage.created, expiresAt = flow.expiresAt

def View.Stored (now : Nat) : (x : Credential) → View x → Prop
  | .challenge _, v => ChallengeView.checks v ≤ 3 ∧
    ∀ entry, ChallengeView.redis v = some entry → Counted now v entry
  | .flow _, v => ∀ entry, FlowView.redis v = some entry → Kept v entry.payload
  | .code _, _ => True
  | .refreshToken _, v => (TokenView.holders v).length ≤ 1

structure View.Good (now : Nat) (x : Credential) (v : View x) : Prop where
  once : View.uses x v = 0 ∨ View.uses x v = 1 ∧ View.closed now x v
  timely : ∀ at_ ∈ (View.usage x v).accepted, ∀ expiresAt ∈ (View.usage x v).created, at_ < expiresAt
  stored : View.Stored now x v

structure Tracked (w : World P) : Prop where
  good : ∀ x, View.Good w.now x (w.view x)
  fresh : ∀ x, w.draws ≤ x.value → w.view x = View.untouched x
  sessionIds : (w.sessions.map AuthSession.sessionId).Nodup

/-- The credential may still be used, by nobody but the request that holds it. -/
def Ready (w : World P) (x : Credential) : Prop :=
  View.uses x (w.view x) = 0 ∧ View.closed w.now x (w.view x)

def Presented (w : World P) (challengeId : Nat) (ch : ChallengeData) : Prop :=
  View.uses _ (w.view (.challenge challengeId)) = 0 ∧
    ∃ expiresAt, (w.view (.challenge challengeId)).redis = some ⟨ch, expiresAt⟩

def Phase (w : World P) : Pending → Prop
  | .challengeSet data => w.view (.challenge data.challengeId) = View.untouched _ ∧
    data.expiresAt ≤ w.now + CHALLENGE_TTL * 1000
  | .incrementGet body ch => Presented w body.challengeId ch
  | .incrementSet body ch data => Presented w body.challengeId ch ∧
    data = { ch with attempts := ch.attempts + 1 }
  | .consumeGet id _ | .consumeDelete id _ => View.uses _ (w.view (.challenge id)) = 0
  | .findUser login _ | .createUser login _ | .updateUser login _ => Ready w login.credential
  | .sign grant => Ready w grant.login.credential
  | .createSession grant tokens => Ready w grant.login.credential ∧
    w.view (.refreshToken tokens.refreshToken) = View.untouched _
  | .refreshSign refreshToken session =>
    (w.view (.refreshToken refreshToken)).holders = [session.sessionId]
  | .refreshUpdate refreshToken session tokens =>
    (w.view (.refreshToken refreshToken)).holders = [session.sessionId] ∧
      w.view (.refreshToken tokens.refreshToken) = View.untouched _
  | .authorizeCreate code => w.view (.code code.code) = View.untouched _
  | .flowSet flow => w.view (.flow flow.flowId) = View.untouched _
  | .contributeSet body flow => View.uses _ (w.view (.flow body.authFlowId)) = 0 ∧
    Kept (w.view (.flow body.authFlowId)) flow ∧ flow.SignedBy body.signerAddress
  | .completeSet id flow => View.uses _ (w.view (.flow id)) = 0 ∧ Kept (w.view (.flow id)) flow ∧
    flow.completed = true
  | .tokenMarkUsed code => View.uses _ (w.view (.code code.code)) = 0
  | .tokenFindUser code => Ready w (.code code.code)
  | _ => True

theorem live_mono {V : Type*} {entry : Entry V} {now later : Nat} (passed : now ≤ later)
    (expired : entry.live now = false) : entry.live later = false := by
  unfold Entry.live at expired ⊢
  cases expiry : entry.expiresAt with
  | none =>
    rw [expiry] at expired
    contradiction
  | some at_ =>
    simp only [expiry, Option.all_some, decide_eq_false_iff_not] at expired ⊢
    omega

theorem live_of_lt {V : Type*} {entry : Entry V} {now at_ : Nat} (expiry : entry.expiresAt = some at_)
    (early : now < at_) : entry.live now = true := by
  rw [Entry.live, expiry, Option.all_some]
  exact decide_eq_true early

theorem View.closed_mono {now later : Nat} (passed : now ≤ later) (x : Credential) (v : View x)
    (closed : View.closed now x v) : View.closed later x v := by
  cases x with
  | challenge id => exact fun entry stored => live_mono passed (closed entry stored)
  | flow id =>
    intro entry stored live
    apply closed entry stored
    by_contra expired
    rw [live_mono passed (Bool.eq_false_of_not_eq_true expired)] at live
    contradiction
  | code | refreshToken => exact closed

theorem View.Good.later {now later : Nat} {x : Credential} {v : View x} (good : View.Good now x v)
    (passed : now ≤ later) : View.Good later x v := by
  refine ⟨good.once.imp_right fun used => ⟨used.1, View.closed_mono passed x v used.2⟩, good.timely, ?_⟩
  have stored := good.stored
  cases x with
  | challenge id =>
    refine ⟨stored.1, fun entry found => ?_⟩
    have counted := stored.2 entry found
    exact ⟨counted.attempts, counted.lasts,
      Nat.le_trans counted.recent (Nat.add_le_add_right passed _), counted.created⟩
  | flow | code | refreshToken => exact stored

theorem View.good_untouched (now : Nat) (x : Credential) : View.Good now x (View.untouched x) := by
  cases x <;> constructor <;> simp [View.uses, View.usage, View.Stored, View.untouched]

theorem Ready.frame {w w' : World P} {x : Credential} (ready : Ready w x) (same : w'.view x = w.view x)
    (passed : w.now ≤ w'.now) : Ready w' x := by
  rw [Ready, same]
  exact ⟨ready.1, View.closed_mono passed x _ ready.2⟩

/-- What a request knows lasts while the credentials it holds are left alone. -/
theorem Phase.frame {w w' : World P} {pending : Pending} (phase : Phase w pending)
    (same : ∀ x ∈ pending.holds, w'.view x = w.view x) (passed : w.now ≤ w'.now) : Phase w' pending := by
  cases pending with
  | challengeSet data =>
    refine ⟨(same _ List.mem_cons_self).trans phase.1, Nat.le_trans phase.2 ?_⟩
    exact Nat.add_le_add_right passed _
  | findUser | createUser | updateUser | sign | tokenFindUser =>
    exact Ready.frame phase (same _ List.mem_cons_self) passed
  | createSession grant tokens =>
    refine ⟨phase.1.frame (same _ List.mem_cons_self) passed, ?_⟩
    exact (same _ (List.mem_cons_of_mem _ List.mem_cons_self)).trans phase.2
  | refreshUpdate refreshToken session tokens =>
    have kept := same _ List.mem_cons_self
    have untouched := same _ (List.mem_cons_of_mem _ List.mem_cons_self)
    rw [Phase, kept, untouched]
    exact phase
  | incrementGet | incrementSet | consumeGet | consumeDelete | refreshSign | authorizeCreate | flowSet |
      contributeSet | completeSet | tokenMarkUsed =>
    have kept := same _ List.mem_cons_self
    simp only [Phase, Presented, kept] at phase ⊢
    exact phase
  | _ => trivial

theorem no_call {Q : Pending → Prop} : ∀ pending, (none : Option Pending) = some pending → Q pending :=
  fun _ continued => absurd continued (Option.some_ne_none _).symm

/-- A segment that works on the credentials `held`. -/
structure Advances (held : List Credential) (w : World P) (segment : Segment P) : Prop where
  frame : ∀ x ∉ held, segment.1.view x = w.view x
  now : segment.1.now = w.now
  draws : w.draws ≤ segment.1.draws
  own : ∀ x ∈ held, View.Good segment.1.now x (segment.1.view x)
  sessionIds : (segment.1.sessions.map AuthSession.sessionId).Nodup
  next : ∀ pending, segment.2 = some pending → Phase segment.1 pending ∧
    ∀ x ∈ pending.holds, x ∈ held ∨ w.draws ≤ x.value ∧ x.value < segment.1.draws

theorem Advances.tracked {held : List Credential} {w : World P} {segment : Segment P}
    (advances : Advances held w segment) (tracked : Tracked w)
    (bound : ∀ x ∈ held, x.value < w.draws) : Tracked segment.1 where
  good x := by
    by_cases mine : x ∈ held
    · exact advances.own x mine
    · rw [advances.frame x mine, advances.now]
      exact tracked.good x
  fresh x undrawn := by
    have others : x ∉ held := by
      intro mine
      have drawn := bound x mine
      have grows := advances.draws
      omega
    rw [advances.frame x others]
    exact tracked.fresh x (Nat.le_trans advances.draws undrawn)
  sessionIds := advances.sessionIds

/-- No credential is touched. -/
theorem Advances.still {held : List Credential} {w : World P} {segment : Segment P}
    (tracked : Tracked w) (same : Unchanged w segment.1) (now : segment.1.now = w.now)
    (draws : w.draws ≤ segment.1.draws)
    (sessionIds : segment.1.sessions.map AuthSession.sessionId = w.sessions.map AuthSession.sessionId)
    (next : ∀ pending, segment.2 = some pending → Phase segment.1 pending ∧
      ∀ x ∈ pending.holds, x ∈ held ∨ w.draws ≤ x.value ∧ x.value < segment.1.draws) :
    Advances held w segment := by
  refine ⟨fun x _ => same.view x, now, draws, fun x _ => ?_, sessionIds ▸ tracked.sessionIds, next⟩
  rw [same.view x, now]
  exact tracked.good x

/-- One credential is touched, and the request goes on with it alone. -/
theorem Advances.touch {x : Credential} {w : World P} {segment : Segment P} (tracked : Tracked w)
    (frame : ∀ y, y ≠ x → segment.1.view y = w.view y) (now : segment.1.now = w.now)
    (draws : segment.1.draws = w.draws) (sessions : segment.1.sessions = w.sessions)
    (good : View.Good w.now x (segment.1.view x))
    (next : ∀ pending, segment.2 = some pending → Phase segment.1 pending ∧ pending.holds = [x]) :
    Advances [x] w segment := by
  refine ⟨fun y others => frame y fun same => others (List.mem_singleton.mpr same), now, draws.ge, ?_,
    sessions ▸ tracked.sessionIds, fun pending continued => ?_⟩
  · intro y mine
    obtain rfl := List.mem_singleton.mp mine
    exact now ▸ good
  · obtain ⟨phase, held⟩ := next pending continued
    exact ⟨phase, fun y mine => .inl (held ▸ mine)⟩

theorem ends_next {held : List Credential} {w : World P} {segment : Segment P} (ended : segment.2 = none) :
    ∀ pending, segment.2 = some pending → Phase segment.1 pending ∧
      ∀ x ∈ pending.holds, x ∈ held ∨ w.draws ≤ x.value ∧ x.value < segment.1.draws := by
  intro pending continued
  rw [ended] at continued
  contradiction

theorem one_next {x : Credential} {w : World P} {segment : Segment P}
    (next : ∀ pending, segment.2 = some pending → Phase segment.1 pending ∧ pending.holds = [x]) :
    ∀ pending, segment.2 = some pending → Phase segment.1 pending ∧
      ∀ y ∈ pending.holds, y ∈ [x] ∨ w.draws ≤ y.value ∧ y.value < segment.1.draws := by
  intro pending continued
  obtain ⟨phase, held⟩ := next pending continued
  exact ⟨phase, fun y mine => .inl (held ▸ mine)⟩

theorem good_counted {now n : Nat} {id : Nat} {data : ChallengeData} {u : Usage} (unused : u.issued = 0)
    (timely : ∀ at_ ∈ u.accepted, ∀ expiresAt ∈ u.created, at_ < expiresAt) (few : n ≤ 3)
    (counted : n ≤ data.attempts) (recent : data.expiresAt ≤ now + CHALLENGE_TTL * 1000)
    (created : ∀ expiresAt ∈ u.created, expiresAt = data.expiresAt) :
    View.Good now (.challenge id)
      (⟨some ⟨data, some (now + CHALLENGE_TTL * 1000)⟩, n, u⟩ : ChallengeView) := by
  refine ⟨.inl unused, timely, few, fun entry stored => ?_⟩
  obtain rfl := Option.some.inj stored
  refine ⟨counted, fun later early => ?_, recent, created⟩
  exact live_of_lt rfl (Nat.lt_of_lt_of_le early recent)

theorem good_kept {now : Nat} {id : Nat} {v : FlowView} {flow : MultiSigFlow}
    {expiresAt : Option Nat} (unused : v.usage.issued = 0) (stored : v.redis = some ⟨flow, expiresAt⟩)
    (timely : ∀ at_ ∈ v.usage.accepted, ∀ expiresAt ∈ v.usage.created, at_ < expiresAt)
    (kept : Kept v flow) : View.Good now (.flow id) v := by
  refine ⟨.inl unused, timely, fun entry found => ?_⟩
  cases stored.symm.trans found
  exact kept

variable [DecidableEq P]

theorem getChallenge_unchanged (w : World P) (p : P) (id : Nat) : Unchanged w (w.getChallenge p id).2 := by
  refine { Unchanged.refl w with challenges := fun j => ?_ }
  change (Function.update w.challenges id ((w.challenges id).cacheGet p w.now).2 j).redis = _
  rw [Function.update_apply]
  split
  · rename_i same
    rw [same, Cell.cacheGet_redis]
  · rfl

theorem getFlow_unchanged (w : World P) (p : P) (id : Nat) : Unchanged w (w.getFlow p id).2 := by
  refine { Unchanged.refl w with flows := fun j => ?_ }
  change (Function.update w.flows id ((w.flows id).cacheGet p w.now).2 j).redis = _
  rw [Function.update_apply]
  split
  · rename_i same
    rw [same, Cell.cacheGet_redis]
  · rfl

/-- A prompt read returns the live Redis entry. -/
theorem getChallenge_redis {w : World P} {p : P} {id : Nat} {data : ChallengeData}
    (current : (w.challenges id).current p w.now = true) (read : (w.getChallenge p id).1 = some data) :
    ∃ expiresAt, (w.challenges id).redis = some ⟨data, expiresAt⟩ ∧
      (⟨data, expiresAt⟩ : Entry ChallengeData).live w.now = true := by
  change ((w.challenges id).cacheGet p w.now).1 = some data at read
  rw [Cell.cacheGet_of_current current] at read
  obtain ⟨entry, found, rfl⟩ := Option.map_eq_some_iff.mp read
  obtain ⟨stored, live⟩ := Option.filter_eq_some_iff.mp found
  exact ⟨entry.expiresAt, stored, live⟩

theorem getFlow_redis {w : World P} {p : P} {id : Nat} {flow : MultiSigFlow}
    (current : (w.flows id).current p w.now = true) (read : (w.getFlow p id).1 = some flow) :
    ∃ expiresAt, (w.flows id).redis = some ⟨flow, expiresAt⟩ ∧
      (⟨flow, expiresAt⟩ : Entry MultiSigFlow).live w.now = true := by
  change ((w.flows id).cacheGet p w.now).1 = some flow at read
  rw [Cell.cacheGet_of_current current] at read
  obtain ⟨entry, found, rfl⟩ := Option.map_eq_some_iff.mp read
  obtain ⟨stored, live⟩ := Option.filter_eq_some_iff.mp found
  exact ⟨entry.expiresAt, stored, live⟩

omit [DecidableEq P] in
/-- A challenge that can be read has not been used. -/
theorem Tracked.presented {w : World P} (tracked : Tracked w) {id : Nat} {data : ChallengeData}
    {expiresAt : Option Nat} (stored : (w.challenges id).redis = some ⟨data, expiresAt⟩)
    (live : (⟨data, expiresAt⟩ : Entry ChallengeData).live w.now = true) : Presented w id data := by
  refine ⟨?_, expiresAt, stored⟩
  rcases (tracked.good (.challenge id)).once with unused | ⟨-, closed⟩
  · exact unused
  · rw [closed _ stored] at live
    contradiction

theorem verifyStart_advances {w : World P} {p : P} {body : VerifyBody} (tracked : Tracked w)
    (current : (w.challenges body.challengeId).current p w.now = true) :
    Advances [.challenge body.challengeId] w (verifyStart w p body) := by
  have same := getChallenge_unchanged w p body.challengeId
  have found (ch : ChallengeData) := (getChallenge_redis current : (w.getChallenge p body.challengeId).1 = some ch → _)
  unfold verifyStart World.getChallenge
  dsimp only
  split
  · exact .still tracked same rfl (Nat.le_refl _) rfl (ends_next rfl)
  · rename_i ch read
    obtain ⟨expiresAt, stored, live⟩ := found ch read
    refine .still tracked same rfl (Nat.le_refl _) rfl (one_next fun pending continued => ?_)
    dsimp only at continued
    split at continued
    · contradiction
    · cases continued
      have phase : Phase w (.incrementGet body ch) := tracked.presented stored live
      exact ⟨phase.frame (fun x _ => same.view x) (Nat.le_refl _), rfl⟩

/-- An attempt is counted on the record the request was shown. -/
theorem incrementAttempts_advances {w : World P} {p : P} {body : VerifyBody} {ch : ChallengeData}
    (tracked : Tracked w) (presented : Presented w body.challengeId ch)
    (current : (w.challenges body.challengeId).current p w.now = true) (early : w.now < ch.expiresAt) :
    Advances [.challenge body.challengeId] w (incrementAttempts outside w p body ch) := by
  have same := getChallenge_unchanged w p body.challengeId
  have found (data : ChallengeData) := (getChallenge_redis current : (w.getChallenge p body.challengeId).1 = some data → _)
  obtain ⟨unused, expiresAt, stored⟩ := presented
  have live := ((tracked.good (.challenge body.challengeId)).stored.2 _ stored).lasts _ early
  unfold incrementAttempts World.getChallenge
  dsimp only
  split
  · rename_i missed
    rw [Cell.redis_of_miss missed _ stored] at live
    contradiction
  · rename_i data read
    obtain ⟨_, again, -⟩ := found data read
    cases stored.symm.trans again
    refine .still tracked same rfl (Nat.le_refl _) rfl (one_next fun pending continued => ?_)
    cases continued
    have phase : Phase w (.incrementSet body ch { ch with attempts := ch.attempts + 1 }) :=
      ⟨⟨unused, expiresAt, stored⟩, rfl⟩
    exact ⟨phase.frame (fun x _ => same.view x) (Nat.le_refl _), rfl⟩

/-- The view of a challenge whose record was just rewritten. -/
theorem view_storeChallenge (w : World P) (p : P) (id : Nat) (data : ChallengeData) (h : History) :
    ({ w.storeChallenge p id data with history := h } : World P).view (.challenge id) =
      (⟨some ⟨data, some (w.now + CHALLENGE_TTL * 1000)⟩, h.checks.count id,
        h.usage (.challenge id)⟩ : ChallengeView) := by
  simp [World.view, World.storeChallenge, World.setChallenge, Cell.cacheSet, Cell.buildExpiry,
    CHALLENGE_TTL]

/-- `h` adds at most checks and acceptances of one challenge. -/
structure Checked (h₀ h : History) (id : Nat) : Prop where
  checks : ∀ j, j ≠ id → h.checks.count j = h₀.checks.count j
  acknowledged : h.acknowledged = h₀.acknowledged
  rotations : h.rotations = h₀.rotations
  issues : h.issues = h₀.issues
  created : h.created = h₀.created
  accepted : ∀ x, x ≠ .challenge id → entriesOf x h.accepted = entriesOf x h₀.accepted

/-- The rewrite that counts an attempt, and a check that the count allows. -/
theorem rewrite_advances {w : World P} {p : P} {id : Nat} {ch : ChallengeData} {h : History}
    {next : Option Pending} (tracked : Tracked w) (presented : Presented w id ch)
    (checked : Checked w.history h id) (few : h.checks.count id ≤ 3)
    (counted : h.checks.count id ≤ ch.attempts + 1)
    (accepted : ∀ at_ ∈ entriesOf (.challenge id) h.accepted,
      at_ ∈ entriesOf (.challenge id) w.history.accepted ∨ at_ < ch.expiresAt)
    (goes : next = none ∨ next = some (.dropGet id) ∨ next = some (.consumeGet id ch)) :
    Advances [.challenge id] w
      ({ w.storeChallenge p id { ch with attempts := ch.attempts + 1 } with history := h }, next) := by
  obtain ⟨unused, expiresAt, stored⟩ := presented
  have good := tracked.good (.challenge id)
  have before := good.stored.2 _ stored
  have view := view_storeChallenge w p id { ch with attempts := ch.attempts + 1 } h
  have issued : (h.usage (.challenge id)).issued = 0 := by
    rw [History.usage, checked.issues]
    exact unused
  have created : (h.usage (.challenge id)).created = (w.history.usage (.challenge id)).created := by
    rw [History.usage, checked.created, History.usage]
  have usage (x : Credential) (other : x ≠ .challenge id) : h.usage x = w.history.usage x := by
    rw [History.usage, checked.issues, checked.created, checked.accepted x other, History.usage]
  refine .touch tracked (fun y other =>
    view_challenge_frame checked.checks checked.acknowledged checked.rotations usage other) rfl rfl rfl ?_ ?_
  · rw [view]
    refine good_counted issued (fun at_ member e opened => ?_) few counted before.recent (created ▸ before.created)
    rw [created] at opened
    rcases accepted at_ member with earlier | early
    · exact good.timely at_ earlier e opened
    · rw [before.created e opened]
      exact early
  · intro pending continued
    rcases goes with rfl | rfl | rfl
    · contradiction
    · cases continued
      exact ⟨trivial, rfl⟩
    · cases continued
      refine ⟨?_, rfl⟩
      rw [Phase, view]
      exact issued

theorem countAttempt_advances {w : World P} {p : P} {body : VerifyBody} {ch data : ChallengeData}
    (tracked : Tracked w) (presented : Presented w body.challengeId ch)
    (counts : data = { ch with attempts := ch.attempts + 1 }) (early : w.now < ch.expiresAt) :
    Advances [.challenge body.challengeId] w (countAttempt outside w p body ch data) := by
  subst counts
  have checks : w.history.checks.count body.challengeId ≤ ch.attempts := by
    obtain ⟨-, expiresAt, stored⟩ := presented
    exact ((tracked.good (.challenge body.challengeId)).stored.2 _ stored).attempts
  have attempted : Checked w.history { w.history with checks := body.challengeId :: w.history.checks }
      body.challengeId :=
    ⟨fun j other => List.count_cons_of_ne other.symm, rfl, rfl, rfl, rfl, fun _ _ => rfl⟩
  unfold countAttempt checkSignature
  dsimp only
  split
  · apply rewrite_advances tracked presented ⟨fun _ _ => rfl, rfl, rfl, rfl, rfl, fun _ _ => rfl⟩
    · exact (tracked.good (.challenge body.challengeId)).stored.1
    · exact Nat.le_succ_of_le checks
    · exact fun _ member => .inl member
    · exact .inr (.inl rfl)
  · rename_i few
    have room : (body.challengeId :: w.history.checks).count body.challengeId ≤ ch.attempts + 1 := by
      rw [List.count_cons_self]
      exact Nat.succ_le_succ checks
    have bound : ch.attempts + 1 ≤ 3 := Nat.le_of_not_lt few
    split
    · have accepting : Checked w.history { w.history with
          checks := body.challengeId :: w.history.checks
          accepted := (.challenge body.challengeId, w.now) :: w.history.accepted } body.challengeId :=
        { attempted with accepted := fun _ other => entriesOf_ne _ _ other.symm }
      apply rewrite_advances tracked presented accepting
      · exact Nat.le_trans room bound
      · exact room
      · intro at_ member
        change at_ ∈ entriesOf _ ((_, w.now) :: w.history.accepted) at member
        rw [entriesOf_self] at member
        rcases List.mem_cons.mp member with rfl | earlier
        · exact .inr early
        · exact .inl earlier
      · exact .inr (.inr rfl)
    · apply rewrite_advances tracked presented attempted
      · exact Nat.le_trans room bound
      · exact room
      · exact fun _ member => .inl member
      · exact .inl rfl
    · apply rewrite_advances tracked presented attempted
      · exact Nat.le_trans room bound
      · exact room
      · exact fun _ member => .inl member
      · exact .inl rfl

theorem challengeSet_advances {w : World P} {p : P} {data : ChallengeData} (tracked : Tracked w)
    (untouched : w.view (.challenge data.challengeId) = View.untouched _)
    (recent : data.expiresAt ≤ w.now + CHALLENGE_TTL * 1000) :
    Advances [.challenge data.challengeId] w (resumePending outside w p (.challengeSet data)) := by
  have checks : w.history.checks.count data.challengeId = 0 := congrArg ChallengeView.checks untouched
  have usage : w.history.usage (.challenge data.challengeId) = ⟨0, [], []⟩ :=
    congrArg ChallengeView.usage untouched
  change Advances _ w ({ w.storeChallenge p data.challengeId data with history := { w.history with
    challenged := (data.address, data.message) :: w.history.challenged
    created := (.challenge data.challengeId, data.expiresAt) :: w.history.created } }, none)
  refine .touch tracked (fun y other => ?_) rfl rfl rfl ?_ no_call
  · apply view_challenge_frame ?_ ?_ ?_ ?_ other
    · exact fun _ _ => rfl
    · rfl
    · rfl
    · exact fun x other => usage_created data.expiresAt other
  rw [view_storeChallenge]
  obtain ⟨issued, created, accepted⟩ := Usage.mk.inj usage
  apply good_counted issued
  · intro at_ member
    rw [History.usage] at member
    rw [accepted] at member
    contradiction
  · rw [checks]
    exact Nat.zero_le _
  · rw [checks]
    exact Nat.zero_le _
  · exact recent
  · intro expiresAt member
    simp only [History.usage, entriesOf_self, created, List.mem_singleton] at member
    exact member

theorem deleteChallenge_view (w : World P) (p : P) (id : Nat) :
    (w.deleteChallenge p id).view (.challenge id) =
      ({ w.view (.challenge id) with redis := none } : ChallengeView) := by
  simp [World.view, World.deleteChallenge, World.setChallenge, Cell.cacheDelete]

/-- Deleting a record leaves nothing to read. -/
theorem deleteChallenge_advances {w : World P} {p : P} {id : Nat} {next : Option Pending}
    (tracked : Tracked w)
    (goes : ∀ pending, next = some pending → View.uses _ (w.view (.challenge id)) = 0 ∧
      ∃ ch address, pending = .findUser (.verify id ch) address) :
    Advances [.challenge id] w (w.deleteChallenge p id, next) := by
  have good := tracked.good (.challenge id)
  have closed : View.closed w.now (.challenge id) ((w.deleteChallenge p id).view (.challenge id)) := by
    rw [deleteChallenge_view]
    exact nofun
  refine .touch tracked (fun y other => view_challenge_frame (fun _ _ => rfl) rfl rfl (fun _ _ => rfl) other)
    rfl rfl rfl ⟨?_, ?_, ?_⟩ ?_
  · rw [deleteChallenge_view] at closed ⊢
    exact good.once.imp_right fun used => ⟨used.1, closed⟩
  · rw [deleteChallenge_view]
    exact good.timely
  · rw [deleteChallenge_view]
    exact ⟨good.stored.1, nofun⟩
  · intro pending continued
    obtain ⟨unused, ch, address, rfl⟩ := goes pending continued
    refine ⟨⟨?_, closed⟩, rfl⟩
    change View.uses _ ((w.deleteChallenge p id).view (.challenge id)) = 0
    rw [deleteChallenge_view]
    exact unused

theorem consumeGet_advances {w : World P} {p : P} {id : Nat} {ch : ChallengeData} (tracked : Tracked w)
    (unused : View.uses _ (w.view (.challenge id)) = 0) :
    Advances [.challenge id] w (resumePending outside w p (.consumeGet id ch)) := by
  have same := getChallenge_unchanged w p id
  refine .still tracked same rfl (Nat.le_refl _) rfl (one_next fun pending continued => ?_)
  dsimp only [resumePending] at continued
  split at continued
  · cases continued
    have phase : Phase w (.consumeDelete id ch) := unused
    exact ⟨phase.frame (fun x _ => same.view x) (Nat.le_refl _), rfl⟩
  · rename_i missed
    cases continued
    have closed : View.closed w.now (.challenge id) (w.view (.challenge id)) :=
      Cell.redis_of_miss (Option.not_isSome_iff_eq_none.mp missed)
    have phase : Phase w (.findUser (.verify id ch) ch.address) := ⟨unused, closed⟩
    exact ⟨phase.frame (fun x _ => same.view x) (Nat.le_refl _), rfl⟩

omit [DecidableEq P] in
theorem proceed_advances {w w' : World P} (tracked : Tracked w) (same : Unchanged w w')
    (now : w'.now = w.now) (draws : w.draws ≤ w'.draws) (sessions : w'.sessions = w.sessions)
    (login : Login) (user : WalletUser) (ready : Ready w login.credential) :
    Advances [login.credential] w (login.proceed w' user) := by
  have granted (sub appId : String) : Advances [login.credential] w (grantTo w' login user sub appId) := by
    have drawn : Unchanged w w'.draw := { same with }
    refine .still tracked drawn now (Nat.le_succ_of_le draws) (by rw [← sessions]; rfl)
      (one_next fun pending continued => ?_)
    cases continued
    exact ⟨ready.frame (drawn.view _) now.ge, rfl⟩
  cases login <;> exact granted _ _

omit [DecidableEq P] in
theorem findUser_advances {w : World P} (tracked : Tracked w) (login : Login) (address : String)
    (ready : Ready w login.credential) : Advances [login.credential] w (findUser w login address) := by
  have stays {next : Pending} (phase : Phase w next) (held : next.holds = [login.credential]) :
      Advances [login.credential] w (w, some next) := by
    refine .still tracked (.refl w) rfl (Nat.le_refl _) rfl (one_next fun pending continued => ?_)
    cases continued
    exact ⟨phase, held⟩
  unfold findUser
  split
  · exact stays ready rfl
  · split
    · exact stays ready rfl
    · exact proceed_advances tracked (.refl w) rfl (Nat.le_refl _) rfl _ _ ready

omit [DecidableEq P] in
theorem createUser_advances {w : World P} (tracked : Tracked w) (login : Login) (address : String)
    (ready : Ready w login.credential) : Advances [login.credential] w (createUser w login address) := by
  unfold createUser
  split
  · exact .still tracked (.refl w) rfl (Nat.le_refl _) rfl (ends_next rfl)
  · have same : Unchanged w { w.draw with users := ⟨w.draws, address, true⟩ :: w.users } :=
      { Unchanged.refl w with }
    exact proceed_advances tracked same rfl (Nat.le_succ _) rfl _ _ ready

omit [DecidableEq P] in
theorem sign_advances {w : World P} (tracked : Tracked w) (grant : Grant)
    (ready : Ready w grant.login.credential) : Advances [grant.login.credential] w (sign w grant) := by
  have same : Unchanged w (sign w grant).1 := { Unchanged.refl w with }
  refine .still tracked same rfl (Nat.le_add_right _ 2) rfl fun pending continued => ?_
  cases continued
  refine ⟨⟨ready.frame (same.view _) (Nat.le_refl _), ?_⟩, fun x held => ?_⟩
  · exact (same.view _).trans (tracked.fresh (.refreshToken (w.draws + 1)) (Nat.le_succ _))
  · rcases List.mem_cons.mp held with rfl | held
    · exact .inl List.mem_cons_self
    · obtain rfl := List.mem_singleton.mp held
      exact .inr ⟨Nat.le_succ _, Nat.lt_succ_self _⟩

/-- `w'` has one more session row, issued for `x`. -/
structure Opened (w w' : World P) (row : AuthSession) (issue : Issue) : Prop where
  now : w'.now = w.now
  draws : w'.draws = w.draws
  challenges : w'.challenges = w.challenges
  flows : w'.flows = w.flows
  codes : w'.codes = w.codes
  sessions : w'.sessions = row :: w.sessions
  issues : w'.history.issues = issue :: w.history.issues
  created : w'.history.created = w.history.created
  accepted : w'.history.accepted = w.history.accepted
  checks : w'.history.checks = w.history.checks
  acknowledged : w'.history.acknowledged = w.history.acknowledged
  rotations : w'.history.rotations = w.history.rotations

omit [DecidableEq P] in
theorem Opened.usage {w w' : World P} {row : AuthSession} {issue : Issue}
    (opened : Opened w w' row issue) (x : Credential) (other : x ≠ issue.credential) :
    w'.history.usage x = w.history.usage x := by
  simp [History.usage, opened.issues, opened.created, opened.accepted, other.symm]

omit [DecidableEq P] in
theorem Opened.usage_self {w w' : World P} {row : AuthSession} {issue : Issue}
    (opened : Opened w w' row issue) : w'.history.usage issue.credential =
      { w.history.usage issue.credential with
        issued := (w.history.usage issue.credential).issued + 1 } := by
  simp [History.usage, opened.issues, opened.created, opened.accepted]

omit [DecidableEq P] in
theorem Opened.holders {w w' : World P} {row : AuthSession} {issue : Issue}
    (opened : Opened w w' row issue) (refreshToken : Nat) : w'.holders refreshToken =
      if row.refreshTokenHash = refreshToken then row.sessionId :: w.holders refreshToken
      else w.holders refreshToken := by
  simp only [World.holders, opened.sessions, List.filterMap_cons]
  by_cases same : row.refreshTokenHash = refreshToken
  · simp only [if_pos same]
  · simp only [if_neg same]

omit [DecidableEq P] in
theorem Opened.frame {w w' : World P} {row : AuthSession} {issue : Issue}
    (opened : Opened w w' row issue) (x : Credential) (other : x ≠ issue.credential)
    (elsewhere : x ≠ .refreshToken row.refreshTokenHash) : w'.view x = w.view x := by
  have usage := opened.usage x other
  cases x with
  | challenge id => simp only [World.view, opened.challenges, usage, opened.checks]
  | flow id => simp only [World.view, opened.flows, usage, opened.acknowledged]
  | code id => simp only [World.view, opened.codes, usage]
  | refreshToken r =>
    have different : row.refreshTokenHash ≠ r := fun same => elsewhere (congrArg _ same.symm)
    simp only [World.view, opened.holders, if_neg different, opened.rotations]

omit [DecidableEq P] in
/-- The credential of the login is used up. -/
theorem Opened.good {w w' : World P} {row : AuthSession} {issue : Issue} (opened : Opened w w' row issue)
    (tracked : Tracked w) (login : Login) (named : issue.credential = login.credential)
    (ready : Ready w login.credential) :
    View.Good w'.now login.credential (w'.view login.credential) := by
  have good := tracked.good login.credential
  have usage := opened.usage_self
  rw [named] at usage
  rw [opened.now]
  cases login with
  | verify id ch =>
    have view : w'.view (.challenge id) = (⟨(w.challenges id).redis, w.history.checks.count id,
        w'.history.usage (.challenge id)⟩ : ChallengeView) := by
      simp only [World.view, opened.challenges, opened.checks]
    rw [Login.credential] at good usage ready ⊢
    rw [view, usage]
    exact ⟨.inr ⟨congrArg (· + 1) ready.1, ready.2⟩, good.timely, good.stored.1, fun entry stored =>
      { good.stored.2 entry stored with }⟩
  | complete id flow =>
    have view : w'.view (.flow id) = (⟨(w.flows id).redis, entriesOf id w.history.acknowledged,
        w'.history.usage (.flow id)⟩ : FlowView) := by
      simp only [World.view, opened.flows, opened.acknowledged]
    rw [Login.credential] at good usage ready ⊢
    rw [view, usage]
    exact ⟨.inr ⟨congrArg (· + 1) ready.1, ready.2⟩, good.timely, fun entry stored =>
      { good.stored entry stored with }⟩
  | token code =>
    have view : w'.view (.code code.code) = (⟨w.codes.filter fun row => row.code = code.code,
        w'.history.usage (.code code.code)⟩ : CodeView) := by
      simp only [World.view, opened.codes]
    rw [Login.credential] at good usage ready ⊢
    rw [view, usage]
    exact ⟨.inr ⟨congrArg (· + 1) ready.1, ready.2⟩, good.timely, trivial⟩

omit [DecidableEq P] in
/-- Storing the session uses the login's credential up, and its refresh token begins. -/
theorem createSession_advances {w : World P} {grant : Grant} {tokens : TokenPair} (tracked : Tracked w)
    (ready : Ready w grant.login.credential)
    (untouched : w.view (.refreshToken tokens.refreshToken) = View.untouched _) :
    Advances [grant.login.credential, .refreshToken tokens.refreshToken] w
      (createSession w grant tokens) := by
  have holders : w.holders tokens.refreshToken = [] := congrArg TokenView.holders untouched
  have rotations : w.history.rotations.count tokens.refreshToken = 0 :=
    congrArg TokenView.rotations untouched
  unfold createSession
  split
  · exact .still tracked (.refl w) rfl (Nat.le_refl _) rfl (ends_next rfl)
  · rename_i unused
    dsimp only
    generalize rowIs : AuthSession.mk grant.sessionId grant.userId tokens.token tokens.refreshToken
      grant.appId true (w.now + REFRESH_TOKEN_TTL * 1000) = row
    generalize issueIs : Issue.mk grant.login.credential grant.sub (w.wallets grant.sub) = issue
    have opened : Opened w (({ w with sessions := row :: w.sessions }).record fun h => { h with
        issues := issue :: h.issues
        sessions := .opened row.sessionId (w.now + REFRESH_TOKEN_TTL * 1000) :: h.sessions }) row issue :=
      ⟨rfl, rfl, rfl, rfl, rfl, rfl, rfl, rfl, rfl, rfl, rfl, rfl⟩
    have named : issue.credential = grant.login.credential := by rw [← issueIs]
    have token : row.refreshTokenHash = tokens.refreshToken := by rw [← rowIs]
    refine ⟨fun x others => ?_, rfl, Nat.le_refl _, fun x mine => ?_, ?_, no_call⟩
    · simp only [List.mem_cons, List.not_mem_nil, or_false, not_or] at others
      exact opened.frame x (named ▸ others.1) (token ▸ others.2)
    · rcases List.mem_cons.mp mine with rfl | mine
      · exact opened.good tracked grant.login named ready
      · obtain rfl := List.mem_singleton.mp mine
        have mine := opened.holders tokens.refreshToken
        rw [if_pos token, holders] at mine
        exact ⟨.inl rotations, nofun, Nat.le_of_eq (congrArg List.length mine)⟩
    · change (row.sessionId :: w.sessions.map AuthSession.sessionId).Nodup
      rw [List.nodup_cons]
      refine ⟨fun taken => unused ?_, tracked.sessionIds⟩
      obtain ⟨other, member, same⟩ := List.mem_map.mp taken
      rw [← rowIs] at same
      exact List.any_eq_true.mpr ⟨other, member, decide_eq_true same⟩

omit [DecidableEq P] in
theorem refreshFind_advances {w : World P} (tracked : Tracked w) (refreshToken : Nat) :
    Advances [.refreshToken refreshToken] w (refreshFind w refreshToken) := by
  unfold refreshFind
  split
  · exact .still tracked (.refl w) rfl (Nat.le_refl _) rfl (ends_next rfl)
  · rename_i session found
    refine .still tracked (.refl w) rfl (Nat.le_refl _) rfl (one_next fun pending continued => ?_)
    dsimp only at continued
    split at continued
    · contradiction
    · cases continued
      have matched := List.find?_some found
      rw [Bool.and_eq_true, decide_eq_true_eq] at matched
      have held : session.sessionId ∈ w.holders refreshToken :=
        List.mem_filterMap.mpr ⟨session, List.mem_of_find?_eq_some found, if_pos matched.1⟩
      have few : (w.holders refreshToken).length ≤ 1 := (tracked.good (.refreshToken refreshToken)).stored
      refine ⟨?_, rfl⟩
      change w.holders refreshToken = [session.sessionId]
      cases holders : w.holders refreshToken with
      | nil =>
        rw [holders] at held
        contradiction
      | cons first rest =>
        rw [holders, List.length_cons] at few
        obtain rfl := List.eq_nil_of_length_eq_zero (Nat.le_zero.mp (Nat.le_of_succ_le_succ few))
        rw [holders, List.mem_singleton] at held
        rw [held]

omit [DecidableEq P] in
theorem refreshSign_advances {w : World P} (tracked : Tracked w) (refreshToken : Nat)
    (session : AuthSession) (holders : (w.view (.refreshToken refreshToken)).holders = [session.sessionId]) :
    Advances [.refreshToken refreshToken] w (refreshSign w refreshToken session) := by
  unfold refreshSign
  split
  · exact .still tracked (.refl w) rfl (Nat.le_refl _) rfl (ends_next rfl)
  · rename_i user found
    have same : Unchanged w
        (issueTokens w user.address user.userId session.sessionId session.appId).2 :=
      { Unchanged.refl w with }
    refine .still tracked same rfl (Nat.le_add_right _ 2) rfl fun pending continued => ?_
    cases continued
    refine ⟨⟨holders, ?_⟩, fun x held => ?_⟩
    · exact (same.view _).trans (tracked.fresh (.refreshToken (w.draws + 1)) (Nat.le_succ _))
    · rcases List.mem_cons.mp held with rfl | held
      · exact .inl List.mem_cons_self
      · obtain rfl := List.mem_singleton.mp held
        exact .inr ⟨Nat.le_succ _, Nat.lt_succ_self _⟩

/-- The row that had the old token gets the new one. -/
def rotate (session : AuthSession) (tokens : TokenPair) (row : AuthSession) : AuthSession :=
  if row.sessionId = session.sessionId then
    { row with tokenHash := tokens.token, refreshTokenHash := tokens.refreshToken }
  else row

omit [DecidableEq P] in
/-- The rows of a session are the rows with its refresh token. -/
theorem Tracked.row_iff {w : World P} (tracked : Tracked w) {refreshToken sessionId : Nat}
    (holders : w.holders refreshToken = [sessionId]) {row : AuthSession} (member : row ∈ w.sessions) :
    row.sessionId = sessionId ↔ row.refreshTokenHash = refreshToken := by
  constructor
  · intro same
    have held : sessionId ∈ w.holders refreshToken := by
      rw [holders]
      exact List.mem_cons_self
    obtain ⟨holder, stored, chosen⟩ := List.mem_filterMap.mp held
    split at chosen
    · rename_i hash
      have named := Option.some.inj chosen
      rw [List.inj_on_of_nodup_map tracked.sessionIds member stored (same.trans named.symm)]
      exact hash
    · contradiction
  · intro hash
    have held : row.sessionId ∈ w.holders refreshToken :=
      List.mem_filterMap.mpr ⟨row, member, if_pos hash⟩
    rw [holders] at held
    exact List.mem_singleton.mp held

omit [DecidableEq P] in
theorem rotated_holders {w w' : World P} (tracked : Tracked w) {refreshToken : Nat}
    {session : AuthSession} {tokens : TokenPair} (holders : w.holders refreshToken = [session.sessionId])
    (untouched : w.holders tokens.refreshToken = [])
    (sessions : w'.sessions = w.sessions.map (rotate session tokens)) :
    w'.holders refreshToken = [] ∧ w'.holders tokens.refreshToken = [session.sessionId] ∧
      ∀ other, other ≠ refreshToken → other ≠ tokens.refreshToken → w'.holders other = w.holders other := by
  have unheld (row : AuthSession) (member : row ∈ w.sessions) :
      row.refreshTokenHash ≠ tokens.refreshToken := by
    intro same
    have held : row.sessionId ∈ w.holders tokens.refreshToken :=
      List.mem_filterMap.mpr ⟨row, member, if_pos same⟩
    rw [untouched] at held
    contradiction
  have different : tokens.refreshToken ≠ refreshToken := by
    intro same
    rw [same, holders] at untouched
    contradiction
  have hashes (row : AuthSession) (member : row ∈ w.sessions) :
      (rotate session tokens row).sessionId = row.sessionId ∧
      (rotate session tokens row).refreshTokenHash =
        if row.refreshTokenHash = refreshToken then tokens.refreshToken else row.refreshTokenHash := by
    unfold rotate
    by_cases mine : row.sessionId = session.sessionId
    · rw [if_pos mine, if_pos ((tracked.row_iff holders member).mp mine)]
      exact ⟨rfl, rfl⟩
    · rw [if_neg mine, if_neg fun hash => mine ((tracked.row_iff holders member).mpr hash)]
      exact ⟨rfl, rfl⟩
  have mapped (r r₀ : Nat) (same : ∀ row ∈ w.sessions,
      (rotate session tokens row).refreshTokenHash = r ↔ row.refreshTokenHash = r₀) :
      w'.holders r = w.holders r₀ := by
    rw [World.holders, sessions, List.filterMap_map, World.holders]
    refine List.filterMap_congr fun row member => ?_
    simp only [Function.comp, (hashes row member).1, same row member]
  refine ⟨?_, ?_, fun other old new => mapped other other fun row member => ?_⟩
  · rw [mapped refreshToken tokens.refreshToken fun row member => ?_]
    · exact untouched
    · rw [(hashes row member).2]
      have fresh := unheld row member
      split <;> simp_all
  · rw [mapped tokens.refreshToken refreshToken fun row member => ?_]
    · exact holders
    · rw [(hashes row member).2]
      have fresh := unheld row member
      split <;> simp_all
  · rw [(hashes row member).2]
    split
    · rename_i hash
      simp [hash, new.symm, old.symm]
    · rfl

omit [DecidableEq P] in
/-- The old token leaves its row as its pair is returned. -/
theorem refreshUpdate_advances {w : World P} (tracked : Tracked w) {refreshToken : Nat}
    {session : AuthSession} {tokens : TokenPair}
    (held : (w.view (.refreshToken refreshToken)).holders = [session.sessionId])
    (untouched : w.view (.refreshToken tokens.refreshToken) = View.untouched _) :
    Advances [.refreshToken refreshToken, .refreshToken tokens.refreshToken] w
      (refreshUpdate w refreshToken session tokens) := by
  have unheld : w.holders tokens.refreshToken = [] := congrArg TokenView.holders untouched
  have unrotated : w.history.rotations.count tokens.refreshToken = 0 :=
    congrArg TokenView.rotations untouched
  have different : tokens.refreshToken ≠ refreshToken := by
    intro same
    rw [World.view, ← same, unheld] at held
    contradiction
  have sessions : (refreshUpdate w refreshToken session tokens).1.sessions =
      w.sessions.map (rotate session tokens) := rfl
  obtain ⟨old, new, others⟩ := rotated_holders tracked held unheld sessions
  have unused : w.history.rotations.count refreshToken = 0 := by
    rcases (tracked.good (.refreshToken refreshToken)).once with unused | ⟨-, closed⟩
    · exact unused
    · exact absurd (held.symm.trans closed) (List.cons_ne_nil _ _)
  have none (a : Nat) (member : a ∈ ([] : List Nat)) : False := absurd member List.not_mem_nil
  refine ⟨fun x outsider => ?_, rfl, Nat.le_refl _, fun x mine => ?_, ?_, no_call⟩
  · simp only [List.mem_cons, List.not_mem_nil, or_false, not_or] at outsider
    cases x with
    | challenge | flow | code => rfl
    | refreshToken r =>
      have notOld : r ≠ refreshToken := fun same => outsider.1 (congrArg _ same)
      have notNew : r ≠ tokens.refreshToken := fun same => outsider.2 (congrArg _ same)
      simp only [World.view, others r notOld notNew]
      exact congrArg _ (List.count_cons_of_ne notOld.symm)
  · rcases List.mem_cons.mp mine with rfl | mine
    · have used : (refreshToken :: w.history.rotations).count refreshToken = 1 := by
        rw [List.count_cons_self, unused]
      exact ⟨.inr ⟨used, old⟩, fun a member => (none a member).elim, (congrArg List.length old).trans_le (Nat.zero_le _)⟩
    · obtain rfl := List.mem_singleton.mp mine
      have unused : (refreshToken :: w.history.rotations).count tokens.refreshToken = 0 := by
        rw [List.count_cons_of_ne different.symm, unrotated]
      exact ⟨.inl unused, fun a member => (none a member).elim, Nat.le_of_eq (congrArg List.length new)⟩
  · have same : (w.sessions.map (rotate session tokens)).map AuthSession.sessionId =
        w.sessions.map AuthSession.sessionId := by
      rw [List.map_map]
      refine List.map_congr_left fun row _ => ?_
      simp only [Function.comp, rotate]
      split <;> rfl
    change ((w.sessions.map (rotate session tokens)).map AuthSession.sessionId).Nodup
    rw [same]
    exact tracked.sessionIds

theorem storeFlow_view (w : World P) (p : P) (id ttlSeconds : Nat) (flow : MultiSigFlow) (h : History) :
    ({ w.storeFlow p id flow ttlSeconds with history := h } : World P).view (.flow id) =
      (⟨some ⟨flow, Cell.buildExpiry w.now ttlSeconds⟩, entriesOf id h.acknowledged,
        h.usage (.flow id)⟩ : FlowView) := by
  simp [World.view, World.storeFlow, World.setFlow, Cell.cacheSet]

theorem flowSet_advances {w : World P} {p : P} {flow : MultiSigFlow} (tracked : Tracked w)
    (untouched : w.view (.flow flow.flowId) = View.untouched _) :
    Advances [.flow flow.flowId] w (resumePending outside w p (.flowSet flow)) := by
  have acknowledged : entriesOf flow.flowId w.history.acknowledged = [] :=
    congrArg FlowView.acknowledged untouched
  have usage : w.history.usage (.flow flow.flowId) = ⟨0, [], []⟩ := congrArg FlowView.usage untouched
  obtain ⟨issued, created, accepted⟩ := Usage.mk.inj usage
  change Advances _ w ({ w.storeFlow p flow.flowId flow FLOW_TTL with history := { w.history with
    initiated := (flow.multisigAddress, flow.challenge) :: w.history.initiated
    created := (.flow flow.flowId, flow.expiresAt) :: w.history.created } }, none)
  refine .touch tracked (fun y other => ?_) rfl rfl rfl ?_ no_call
  · apply view_flow_frame ?_ ?_ ?_ ?_ other
    · rfl
    · exact fun _ _ => rfl
    · rfl
    · exact fun x other => usage_created flow.expiresAt other
  rw [storeFlow_view]
  apply good_kept issued rfl
  · intro at_ member
    rw [History.usage] at member
    rw [accepted] at member
    contradiction
  · constructor
    · rw [acknowledged]
      exact fun _ member => absurd member List.not_mem_nil
    · intro expiresAt member
      simp only [History.usage, entriesOf_self, created, List.mem_singleton] at member
      exact member

omit [DecidableEq P] in
/-- A flow that can be read and is not completed has not been used. -/
theorem Tracked.open_flow {w : World P} (tracked : Tracked w) {id : Nat} {flow : MultiSigFlow}
    {expiresAt : Option Nat} (stored : (w.flows id).redis = some ⟨flow, expiresAt⟩)
    (live : (⟨flow, expiresAt⟩ : Entry MultiSigFlow).live w.now = true) (incomplete : flow.completed = false) :
    View.uses _ (w.view (.flow id)) = 0 := by
  rcases (tracked.good (.flow id)).once with unused | ⟨-, closed⟩
  · exact unused
  · rw [closed _ stored live] at incomplete
    contradiction

/-- Marking signatures keeps those that are there, and adds the signer's. -/
theorem markSigned_signedBy {signers : List SignerStatus} (signerAddress signature : String)
    (signed : ∃ s ∈ signers, s.address = a ∧ s.signed = true) :
    ∃ s ∈ markSigned signerAddress signature signers, s.address = a ∧ s.signed = true := by
  induction signers with
  | nil =>
    obtain ⟨_, member, -⟩ := signed
    contradiction
  | cons first rest ih =>
    obtain ⟨s, member, named, marked⟩ := signed
    unfold markSigned
    split
    · rcases List.mem_cons.mp member with rfl | member
      · exact ⟨_, List.mem_cons_self, named, rfl⟩
      · exact ⟨s, List.mem_cons_of_mem _ member, named, marked⟩
    · rcases List.mem_cons.mp member with rfl | member
      · exact ⟨s, List.mem_cons_self, named, marked⟩
      · obtain ⟨t, stored, kept⟩ := ih ⟨s, member, named, marked⟩
        exact ⟨t, List.mem_cons_of_mem _ stored, kept⟩

theorem markSigned_signs {signers : List SignerStatus} {signer : SignerStatus} {signerAddress : String}
    (signature : String) (listed : signers.find? (fun s => s.address = signerAddress) = some signer) :
    ∃ s ∈ markSigned signerAddress signature signers, s.address = signerAddress ∧ s.signed = true := by
  induction signers with
  | nil => contradiction
  | cons first rest ih =>
    unfold markSigned
    by_cases named : first.address = signerAddress
    · rw [if_pos named]
      exact ⟨_, List.mem_cons_self, named, rfl⟩
    · rw [if_neg named]
      rw [List.find?_cons_of_neg (by simpa using named)] at listed
      obtain ⟨s, stored, kept⟩ := ih listed
      exact ⟨s, List.mem_cons_of_mem _ stored, kept⟩

theorem contribute_advances {w : World P} {p : P} {body : ContributeBody} (tracked : Tracked w)
    (current : (w.flows body.authFlowId).current p w.now = true) :
    Advances [.flow body.authFlowId] w (contribute outside w p body) := by
  have same := getFlow_unchanged w p body.authFlowId
  have found (flow : MultiSigFlow) :=
    (getFlow_redis current : (w.getFlow p body.authFlowId).1 = some flow → _)
  have ended : Advances [.flow body.authFlowId] w ((w.getFlow p body.authFlowId).2, none) :=
    .still tracked same rfl (Nat.le_refl _) rfl (ends_next rfl)
  unfold contribute World.getFlow
  dsimp only
  split
  · exact ended
  · rename_i flow read
    split
    · exact ended
    · rename_i incomplete
      split
      · exact ended
      · rename_i signer listed
        split
        · exact ended
        · split
          · obtain ⟨expiresAt, stored, live⟩ := found flow read
            have kept : Kept (w.view (.flow body.authFlowId)) flow :=
              (tracked.good (.flow body.authFlowId)).stored _ stored
            have unused := tracked.open_flow stored live (Bool.eq_false_of_not_eq_true incomplete)
            have phase : Phase w (.contributeSet body
                { flow with signers := markSigned body.signerAddress body.signature flow.signers }) := by
              refine ⟨unused, ⟨fun a earlier => ?_, kept.created⟩, markSigned_signs _ listed⟩
              exact markSigned_signedBy _ _ (kept.acknowledged a earlier)
            refine .still tracked same rfl (Nat.le_refl _) rfl (one_next fun pending continued => ?_)
            cases continued
            exact ⟨phase.frame (fun x _ => same.view x) (Nat.le_refl _), rfl⟩
          · exact ended
          · exact ended

theorem contributeSet_advances {w : World P} {p : P} {body : ContributeBody} {flow : MultiSigFlow}
    (tracked : Tracked w) (unused : View.uses _ (w.view (.flow body.authFlowId)) = 0)
    (kept : Kept (w.view (.flow body.authFlowId)) flow) (signed : flow.SignedBy body.signerAddress) :
    Advances [.flow body.authFlowId] w (contributeSet w p body flow) := by
  change Advances _ w ({ w.storeFlow p body.authFlowId flow FLOW_TTL with history := { w.history with
    acknowledged := (body.authFlowId, body.signerAddress) :: w.history.acknowledged } }, none)
  refine .touch tracked (fun y other => ?_) rfl rfl rfl ?_ no_call
  · apply view_flow_frame ?_ ?_ ?_ ?_ other
    · rfl
    · exact fun j other => entriesOf_ne _ _ other.symm
    · rfl
    · exact fun _ _ => rfl
  rw [storeFlow_view]
  apply good_kept ?_ rfl
  · exact (tracked.good (.flow body.authFlowId)).timely
  · refine ⟨fun a member => ?_, kept.created⟩
    rw [entriesOf_self] at member
    rcases List.mem_cons.mp member with rfl | earlier
    · exact signed
    · exact kept.acknowledged a earlier
  · exact unused

/-- A flow is accepted while it is neither completed nor expired. -/
theorem complete_advances {w : World P} {p : P} {authFlowId : Nat} (tracked : Tracked w)
    (timely : prompt w p (.completeGet authFlowId) = true) :
    Advances [.flow authFlowId] w (complete outside w p authFlowId) := by
  have same := getFlow_unchanged w p authFlowId
  rw [prompt, Bool.and_eq_true] at timely
  obtain ⟨current, early⟩ := timely
  have found (flow : MultiSigFlow) := (getFlow_redis current : (w.getFlow p authFlowId).1 = some flow → _)
  have ended : Advances [.flow authFlowId] w ((w.getFlow p authFlowId).2, none) :=
    .still tracked same rfl (Nat.le_refl _) rfl (ends_next rfl)
  unfold complete World.getFlow
  dsimp only
  split
  · exact ended
  · rename_i flow read
    split
    · exact ended
    · rename_i incomplete
      split
      · exact ended
      · obtain ⟨expiresAt, stored, live⟩ := found flow read
        have good := tracked.good (.flow authFlowId)
        have kept : Kept (w.view (.flow authFlowId)) flow := good.stored _ stored
        have unused := tracked.open_flow stored live (Bool.eq_false_of_not_eq_true incomplete)
        have before : w.now < flow.expiresAt := by
          simpa [stored, Option.filter_some, live, incomplete] using early
        have view : World.view ({ (w.getFlow p authFlowId).2 with history := { w.history with
            accepted := (.flow authFlowId, w.now) :: w.history.accepted } }) (.flow authFlowId) =
            (⟨some ⟨flow, expiresAt⟩, entriesOf authFlowId w.history.acknowledged,
              { w.history.usage (.flow authFlowId) with
                accepted := w.now :: entriesOf (.flow authFlowId) w.history.accepted }⟩ : FlowView) := by
          have redis := same.flows authFlowId
          rw [stored] at redis
          simp only [World.view, redis, History.usage, entriesOf_self]
        refine .touch tracked (fun y other => ?_) rfl rfl rfl ?_ fun pending continued => ?_
        · apply view_flow_frame ?_ ?_ ?_ ?_ other
          · rfl
          · exact fun _ _ => rfl
          · rfl
          · exact fun x other => usage_accepted w.now other
        · refine view.symm ▸ good_kept unused rfl (fun at_ member e opened => ?_)
            ⟨kept.acknowledged, kept.created⟩
          rcases List.mem_cons.mp member with rfl | earlier
          · rw [kept.created e opened]
            exact before
          · exact good.timely at_ earlier e opened
        · cases continued
          exact ⟨⟨unused, ⟨kept.acknowledged, kept.created⟩, rfl⟩, rfl⟩

theorem completeSet_advances {w : World P} {p : P} {id : Nat} {flow : MultiSigFlow} (tracked : Tracked w)
    (unused : View.uses _ (w.view (.flow id)) = 0) (kept : Kept (w.view (.flow id)) flow)
    (completed : flow.completed = true) :
    Advances [.flow id] w (resumePending outside w p (.completeSet id flow)) := by
  have view := storeFlow_view w p id 60 flow w.history
  refine .touch tracked (fun y other => ?_) rfl rfl rfl ?_ fun pending continued => ?_
  · apply view_flow_frame ?_ ?_ ?_ ?_ other
    · rfl
    · exact fun _ _ => rfl
    · rfl
    · exact fun _ _ => rfl
  · refine view.symm ▸ good_kept unused rfl ?_ ⟨kept.acknowledged, kept.created⟩
    exact (tracked.good (.flow id)).timely
  · cases continued
    refine ⟨⟨unused, ?_⟩, rfl⟩
    change View.closed w.now _ (World.view { w.storeFlow p id flow 60 with history := w.history } (.flow id))
    rw [view]
    rintro _ ⟨⟩ -
    exact completed

omit [DecidableEq P] in
/-- Only the rows of one code differ. -/
theorem view_code_frame {w : World P} {rows : List OAuthCode} {id : Nat}
    (others : ∀ j, j ≠ id → rows.filter (fun row => row.code = j) = w.codes.filter fun row => row.code = j)
    {x : Credential} (other : x ≠ .code id) : ({ w with codes := rows } : World P).view x = w.view x := by
  cases x with
  | code j =>
    have different : j ≠ id := fun same => other (congrArg _ same)
    simp only [World.view, others j different]
  | challenge | flow | refreshToken => rfl

omit [DecidableEq P] in
theorem authorizeCreate_advances {w : World P} {code : OAuthCode} (tracked : Tracked w)
    (untouched : w.view (.code code.code) = View.untouched _) :
    Advances [.code code.code] w ({ w with codes := code :: w.codes }, none) := by
  have usage : w.history.usage (.code code.code) = ⟨0, [], []⟩ := congrArg CodeView.usage untouched
  obtain ⟨issued, created, accepted⟩ := Usage.mk.inj usage
  refine .touch tracked (fun y other => view_code_frame (fun j different => ?_) other) rfl rfl rfl ?_ no_call
  · rw [List.filter_cons_of_neg]
    simpa using different.symm
  · refine ⟨.inl issued, fun at_ member => ?_, trivial⟩
    change at_ ∈ entriesOf _ _ at member
    rw [accepted] at member
    contradiction

omit [DecidableEq P] in
theorem tokenFindApp_advances {w : World P} (tracked : Tracked w) (body : TokenBody) :
    Advances [.code body.code] w (tokenFindApp w body) := by
  unfold tokenFindApp
  split
  · exact .still tracked (.refl w) rfl (Nat.le_refl _) rfl (ends_next rfl)
  · refine .still tracked (.refl w) rfl (Nat.le_refl _) rfl (one_next fun pending continued => ?_)
    dsimp only at continued
    split at continued
    · contradiction
    · cases continued
      exact ⟨trivial, rfl⟩

omit [DecidableEq P] in
/-- A code that is not used has issued nothing. -/
theorem tokenFindCode_advances {w : World P} (tracked : Tracked w) (body : TokenBody) :
    Advances [.code body.code] w (tokenFindCode w body) := by
  unfold tokenFindCode
  split
  · exact .still tracked (.refl w) rfl (Nat.le_refl _) rfl (ends_next rfl)
  · rename_i code found
    refine .still tracked (.refl w) rfl (Nat.le_refl _) rfl (one_next fun pending continued => ?_)
    dsimp only at continued
    split at continued
    · contradiction
    · cases continued
      have matched := List.find?_some found
      simp only [Bool.and_eq_true, decide_eq_true_eq, Bool.not_eq_true'] at matched
      obtain ⟨⟨same, -⟩, unmarked⟩ := matched
      have unused : View.uses _ (w.view (.code code.code)) = 0 := by
        rcases (tracked.good (.code code.code)).once with unused | ⟨-, closed⟩
        · exact unused
        · have marked := closed code (List.mem_filter.mpr
            ⟨List.mem_of_find?_eq_some found, decide_eq_true rfl⟩)
          rw [unmarked] at marked
          contradiction
      refine ⟨unused, ?_⟩
      rw [Pending.holds, same]

omit [DecidableEq P] in
theorem tokenMarkUsed_advances {w : World P} {code : OAuthCode} (tracked : Tracked w)
    (unused : View.uses _ (w.view (.code code.code)) = 0) :
    Advances [.code code.code] w (tokenMarkUsed w code) := by
  let mark (row : OAuthCode) : OAuthCode :=
    if row.code = code.code then { row with used := true } else row
  have marks (row : OAuthCode) : (mark row).code = row.code := by
    simp only [mark]
    split <;> rfl
  have rows (j : Nat) : (w.codes.map mark).filter (fun row => row.code = j) =
      (w.codes.filter fun row => row.code = j).map mark := by
    simp only [List.filter_map, Function.comp_def, marks]
  have closed : ∀ row ∈ (w.codes.map mark).filter (fun row => row.code = code.code), row.used = true := by
    intro row member
    rw [rows] at member
    obtain ⟨old, stored, rfl⟩ := List.mem_map.mp member
    simp only [mark, if_pos (of_decide_eq_true (List.mem_filter.mp stored).2)]
  refine .touch tracked (fun y other => view_code_frame (fun j different => ?_) other) rfl rfl rfl
    ⟨.inl unused, (tracked.good (.code code.code)).timely, trivial⟩ fun pending continued => ?_
  · change (w.codes.map mark).filter _ = _
    rw [rows]
    refine (List.map_congr_left fun row member => ?_).trans (List.map_id _)
    have named := of_decide_eq_true (List.mem_filter.mp member).2
    simp only [mark, if_neg (named ▸ different), id]
  · cases continued
    exact ⟨⟨unused, closed⟩, rfl⟩

omit [DecidableEq P] in
theorem tokenFindUser_advances {w : World P} {code : OAuthCode} (tracked : Tracked w)
    (ready : Ready w (.code code.code)) : Advances [.code code.code] w (tokenFindUser w code) := by
  unfold tokenFindUser
  split
  · exact .still tracked (.refl w) rfl (Nat.le_refl _) rfl (ends_next rfl)
  · exact proceed_advances tracked (.refl w) rfl (Nat.le_refl _) rfl (.token code) _ ready

omit [DecidableEq P] in
/-- A change of rows that keeps ids and refresh tokens touches no credential. -/
theorem unchanged_sessions {w : World P} {amend : AuthSession → AuthSession}
    (sessionId : ∀ row, (amend row).sessionId = row.sessionId)
    (refreshTokenHash : ∀ row, (amend row).refreshTokenHash = row.refreshTokenHash)
    {events : List SessionEvent} : Unchanged w { w with
      sessions := w.sessions.map amend
      history := { w.history with sessions := events } } := by
  refine { Unchanged.refl w with holders := fun refreshToken => ?_ }
  simp only [World.holders, List.filterMap_map]
  refine List.filterMap_congr fun row _ => ?_
  simp only [Function.comp, sessionId, refreshTokenHash]

omit [DecidableEq P] in
theorem closeSessions_advances {w : World P} (tracked : Tracked w) (chosen : AuthSession → Bool)
    {next : Option Pending}
    (quiet : ∀ pending, next = some pending → Phase (w.closeSessions chosen) pending ∧ pending.holds = []) :
    Advances [] w (w.closeSessions chosen, next) := by
  let close (row : AuthSession) : AuthSession := if chosen row then { row with isActive := false } else row
  have ids (row : AuthSession) : (close row).sessionId = row.sessionId := by
    simp only [close]
    split <;> rfl
  have hashes (row : AuthSession) : (close row).refreshTokenHash = row.refreshTokenHash := by
    simp only [close]
    split <;> rfl
  refine .still tracked (unchanged_sessions ids hashes) rfl (Nat.le_refl _) ?_ fun pending continued => ?_
  · change (w.sessions.map close).map AuthSession.sessionId = _
    rw [List.map_map]
    exact List.map_congr_left fun row _ => ids row
  · obtain ⟨phase, none⟩ := quiet pending continued
    refine ⟨phase, fun x held => ?_⟩
    rw [none] at held
    contradiction

omit [DecidableEq P] in
/-- A segment that holds nothing and goes on with a call that holds nothing. -/
theorem Advances.quiet {w : World P} {segment : Segment P} (tracked : Tracked w)
    (same : Unchanged w segment.1) (now : segment.1.now = w.now) (draws : w.draws ≤ segment.1.draws)
    (sessions : segment.1.sessions = w.sessions)
    (next : segment.2.all fun pending => pending.holds.isEmpty && pending matches
      .rateSet .. | .verifyToken .. | .lookup .. | .act .. | .deleteFound _) :
    Advances [] w segment := by
  refine .still tracked same now draws (congrArg _ sessions) fun pending continued => ?_
  rw [continued] at next
  simp only [Option.all_some, Bool.and_eq_true] at next
  cases pending with
  | rateSet | verifyToken | lookup | act | deleteFound => exact ⟨trivial, fun x held => by contradiction⟩
  | _ => exact absurd next.2 Bool.false_ne_true

omit [DecidableEq P] in
theorem act_advances {w : World P} (tracked : Tracked w) (sessionId userId : Nat) (action : Action) :
    Advances [] w (act w sessionId userId action) := by
  have stays {next : Option Pending} (quiet : next = none ∨ ∃ id, next = some (.deleteFound id)) :
      Advances [] w (w, next) := by
    rcases quiet with rfl | ⟨_, rfl⟩
    · exact .quiet tracked (.refl w) rfl (Nat.le_refl _) rfl rfl
    · exact .quiet tracked (.refl w) rfl (Nat.le_refl _) rfl rfl
  cases action with
  | access => exact stays (.inl rfl)
  | logout | logoutAll => exact closeSessions_advances tracked _ no_call
  | deleteMe =>
    refine closeSessions_advances tracked _ fun pending continued => ?_
    cases continued
    exact ⟨trivial, rfl⟩
  | deleteSession chosen =>
    dsimp only [act]
    split
    · exact stays (.inr ⟨_, rfl⟩)
    · exact stays (.inl rfl)
  | wallets walletAddress wallet =>
    dsimp only [act]
    split
    · exact stays (.inl rfl)
    · exact .still tracked { Unchanged.refl w with } rfl (Nat.le_refl _) rfl (ends_next rfl)
  | authorize clientId redirectUri =>
    dsimp only [act]
    split
    · exact stays (.inl rfl)
    · split
      · have same : Unchanged w w.draw := { Unchanged.refl w with }
        refine .still tracked same rfl (Nat.le_succ _) rfl fun pending continued => ?_
        cases continued
        refine ⟨(same.view _).trans (tracked.fresh _ (Nat.le_refl _)), fun x held => ?_⟩
        obtain rfl := List.mem_singleton.mp held
        exact .inr ⟨Nat.le_refl _, Nat.lt_succ_self _⟩
      · exact stays (.inl rfl)

omit [DecidableEq P] in
theorem lookup_advances {w : World P} (tracked : Tracked w) (token : Jwt) (action : Action) :
    Advances [] w (lookup w token action) := by
  unfold lookup
  split
  · exact .quiet tracked (.refl w) rfl (Nat.le_refl _) rfl rfl
  · split
    · exact .quiet tracked { Unchanged.refl w with } rfl (Nat.le_refl _) rfl rfl
    · exact .quiet tracked (.refl w) rfl (Nat.le_refl _) rfl rfl

/-- A challenge is drawn with its nonce. -/
theorem rateSet_advances {w : World P} {p : P} (tracked : Tracked w) (body : ChallengeBody) (count : Nat) :
    Advances [] w (resumePending outside w p (.rateSet body count)) := by
  have same : Unchanged w (resumePending outside w p (.rateSet body count)).1 := { Unchanged.refl w with }
  refine .still tracked same rfl (Nat.le_add_right _ 2) rfl fun pending continued => ?_
  cases continued
  refine ⟨⟨(same.view _).trans (tracked.fresh (.challenge (w.draws + 1)) (Nat.le_succ _)),
    Nat.le_refl _⟩, fun x held => ?_⟩
  obtain rfl := List.mem_singleton.mp held
  exact .inr ⟨Nat.le_succ _, Nat.lt_succ_self _⟩

/-- Every call works only on what it holds. -/
theorem resume_advances {w : World P} {p : P} {pending : Pending} (tracked : Tracked w)
    (phase : Phase w pending) (timely : prompt w p pending = true) :
    Advances pending.holds w (resumePending outside w p pending) := by
  cases pending with
  | rateGet body =>
    simp only [resumePending, checkChallengeRateLimit]
    split
    · exact .quiet tracked { Unchanged.refl w with } rfl (Nat.le_refl _) rfl rfl
    · exact .quiet tracked { Unchanged.refl w with } rfl (Nat.le_refl _) rfl rfl
  | rateSet body count => exact rateSet_advances tracked body count
  | challengeSet data => exact challengeSet_advances tracked phase.1 phase.2
  | verifyGet body => exact verifyStart_advances tracked timely
  | incrementGet body ch =>
    rw [prompt, Bool.and_eq_true, decide_eq_true_eq] at timely
    exact incrementAttempts_advances tracked phase timely.1 timely.2
  | incrementSet body ch data =>
    exact countAttempt_advances tracked phase.1 phase.2 (of_decide_eq_true timely)
  | dropGet id =>
    refine .still tracked (getChallenge_unchanged w p id) rfl (Nat.le_refl _) rfl
      (one_next fun pending continued => ?_)
    obtain ⟨data, -, rfl⟩ := Option.map_eq_some_iff.mp continued
    exact ⟨trivial, rfl⟩
  | dropDelete id => exact deleteChallenge_advances tracked no_call
  | consumeGet id ch => exact consumeGet_advances tracked phase
  | consumeDelete id ch =>
    refine deleteChallenge_advances tracked fun pending continued => ?_
    cases continued
    exact ⟨phase, ch, ch.address, rfl⟩
  | findUser login address => exact findUser_advances tracked login address phase
  | createUser login address => exact createUser_advances tracked login address phase
  | updateUser login user => exact proceed_advances tracked (.refl w) rfl (Nat.le_refl _) rfl login user phase
  | sign grant => exact sign_advances tracked grant phase
  | createSession grant tokens => exact createSession_advances tracked phase.1 phase.2
  | refreshFind refreshToken => exact refreshFind_advances tracked refreshToken
  | refreshSign refreshToken session => exact refreshSign_advances tracked refreshToken session phase
  | refreshUpdate refreshToken session tokens => exact refreshUpdate_advances tracked phase.1 phase.2
  | verifyToken token action =>
    apply Advances.quiet tracked (.refl w) rfl (Nat.le_refl _) rfl
    dsimp only [resumePending, verifyToken]
    split <;> rfl
  | lookup token action => exact lookup_advances tracked token action
  | act action sessionId userId => exact act_advances tracked sessionId userId action
  | deleteFound sessionId => exact closeSessions_advances tracked _ no_call
  | deactivateUser userId =>
    exact .quiet tracked { Unchanged.refl w with } rfl (Nat.le_refl _) rfl rfl
  | authorizeCreate code => exact authorizeCreate_advances tracked phase
  | flowSet flow => exact flowSet_advances tracked phase
  | flowGet id => exact .quiet tracked (getFlow_unchanged w p id) rfl (Nat.le_refl _) rfl rfl
  | contributeGet body => exact contribute_advances tracked timely
  | contributeSet body flow => exact contributeSet_advances tracked phase.1 phase.2.1 phase.2.2
  | completeGet id => exact complete_advances tracked timely
  | completeSet id flow => exact completeSet_advances tracked phase.1 phase.2.1 phase.2.2
  | tokenFindApp body => exact tokenFindApp_advances tracked body
  | tokenFindCode body => exact tokenFindCode_advances tracked body
  | tokenMarkUsed code => exact tokenMarkUsed_advances tracked phase
  | tokenFindUser code => exact tokenFindUser_advances tracked phase

omit [DecidableEq P] in
theorem beginRoute_advances {w : World P} (tracked : Tracked w) (route : Route) :
    Advances route.credential.toList w (beginRoute w route) := by
  have stays {held : List Credential} {next : Option Pending}
      (quiet : ∀ pending, next = some pending → Phase w pending ∧ ∀ x ∈ pending.holds, x ∈ held) :
      Advances held w (w, next) := by
    refine .still tracked (.refl w) rfl (Nat.le_refl _) rfl fun pending continued => ?_
    obtain ⟨phase, mine⟩ := quiet pending continued
    exact ⟨phase, fun x held => .inl (mine x held)⟩
  cases route with
  | challenge | verify | contribute | token =>
    refine stays fun pending continued => ?_
    split at continued
    · contradiction
    · cases continued
      exact ⟨trivial, fun x held => held⟩
  | initiate body =>
    dsimp only [beginRoute]
    split
    · exact stays no_call
    · have same : Unchanged w (initiate w body).1 := { Unchanged.refl w with }
      refine .still tracked same rfl (Nat.le_add_right _ 2) rfl fun pending continued => ?_
      cases continued
      refine ⟨(same.view _).trans (tracked.fresh (.flow (w.draws + 1)) (Nat.le_succ _)), fun x held => ?_⟩
      obtain rfl := List.mem_singleton.mp held
      exact .inr ⟨Nat.le_succ _, Nat.lt_succ_self _⟩
  | refresh | requireAuth | complete | flows =>
    refine stays fun pending continued => ?_
    cases continued
    exact ⟨trivial, fun x held => held⟩

/-- Every request knows its phase, and no two hold the same credential. -/
structure OneHolder (c : Config (World P) (Call P)) : Prop where
  holds : c.Holds Tracked fun w call =>
    Phase w call.pending ∧ ∀ x ∈ call.pending.holds, x.value < w.draws
  apart : c.Apart fun call => call.pending.holds

omit [DecidableEq P] in
theorem OneHolder.put {c : Config (World P) (Call P)} (inv : OneHolder c) {k : Nat} {p : P}
    {held : List Credential} {segment : Segment P} (advances : Advances held c.world segment)
    (bound : ∀ x ∈ held, x.value < c.world.draws)
    (others : ∀ j call, j ≠ k → c.live j = some call → ∀ x ∈ held, x ∉ call.pending.holds) :
    OneHolder (c.put k segment.1 (segment.2.map fun pending => ⟨p, pending⟩)) := by
  have drawn := advances.draws
  constructor
  · refine Config.holds_put (advances.tracked inv.holds.world bound) (fun call continued => ?_)
      fun j call other found => ?_
    · obtain ⟨pending, next, rfl⟩ := Option.map_eq_some_iff.mp continued
      obtain ⟨phase, mine⟩ := advances.next pending next
      refine ⟨phase, fun x held => ?_⟩
      rcases mine x held with before | fresh
      · exact Nat.lt_of_lt_of_le (bound x before) drawn
      · exact fresh.2
    · obtain ⟨phase, below⟩ := inv.holds.live found
      refine ⟨phase.frame (fun x theirs => ?_) advances.now.ge, fun x theirs => ?_⟩
      · exact advances.frame x fun mine => others j call other found x mine theirs
      · exact Nat.lt_of_lt_of_le (below x theirs) drawn
  · refine inv.apart.put fun call continued j other different found x mine theirs => ?_
    obtain ⟨pending, next, rfl⟩ := Option.map_eq_some_iff.mp continued
    rcases (advances.next pending next).2 x mine with before | fresh
    · exact others j other different found x before theirs
    · have below := (inv.holds.live found).2 x theirs
      omega

omit [DecidableEq P] in
theorem presented_credential {route : Route} {x : Credential} (named : route.credential = some x) :
    route.presented = some x.value := by
  cases route <;> cases named <;> rfl

theorem orderly_preserves {c c' : Config (World P) (Call P)} {a : Act (Request P) Unit (Event P)}
    (inv : OneHolder c) (orderly : Orderly c a) (stepped : (program outside).step c a = some c') :
    OneHolder c' := by
  cases Program.step_cases stepped with
  | start idle begun =>
    rename_i k request w l
    simp only [program, start] at begun
    split at begun
    · rename_i presented
      cases begun
      refine inv.put (beginRoute_advances inv.holds.world request.route) (fun x named => ?_) ?_
      · rw [presented_credential (Option.mem_toList.mp named)] at presented
        exact of_decide_eq_true presented
      · intro j call _ found x named
        rw [Option.mem_toList] at named
        exact orderly x named j call found
    · contradiction
  | resume found resumed =>
    rename_i k call choice w l
    cases resumed
    obtain ⟨phase, below⟩ := inv.holds.live found
    refine inv.put (resume_advances inv.holds.world phase (orderly call found)) below ?_
    intro j other different theirs x mine held
    exact inv.apart k j call other different.symm found theirs mine held
  | abort found =>
    exact ⟨inv.holds.abort, inv.apart.put nofun⟩
  | environment moved =>
    rename_i event w
    have unchanged {w : World P} (same : Unchanged c.world w) (now : c.world.now ≤ w.now)
        (draws : w.draws = c.world.draws) (sessions : w.sessions = c.world.sessions) :
        OneHolder (⟨w, c.live⟩ : Config (World P) (Call P)) := by
      refine ⟨⟨⟨fun x => ?_, fun x undrawn => ?_, ?_⟩, fun found => ?_⟩, inv.apart⟩
      · rw [same.view x]
        exact (inv.holds.world.good x).later now
      · rw [same.view x]
        exact inv.holds.world.fresh x (draws ▸ undrawn)
      · exact sessions ▸ inv.holds.world.sessionIds
      · obtain ⟨phase, below⟩ := inv.holds.live found
        exact ⟨phase.frame (fun x _ => same.view x) now, draws ▸ below⟩
    cases event with
    | elapse ms =>
      cases moved
      exact unchanged { Unchanged.refl c.world with } (Nat.le_add_right _ _) rfl rfl
    | evictChallenge p id =>
      cases moved
      refine unchanged { Unchanged.refl c.world with challenges := fun j => ?_ } (Nat.le_refl _) rfl rfl
      change (Function.update c.world.challenges id ((c.world.challenges id).evict p) j).redis = _
      rw [Function.update_apply]
      split
      · rename_i same
        rw [same]
        rfl
      · rfl
    | evictFlow p id =>
      cases moved
      refine unchanged { Unchanged.refl c.world with flows := fun j => ?_ } (Nat.le_refl _) rfl rfl
      change (Function.update c.world.flows id ((c.world.flows id).evict p) j).redis = _
      rw [Function.update_apply]
      split
      · rename_i same
        rw [same]
        rfl
      · rfl
    | evictAttempts p ip =>
      cases moved
      exact unchanged { Unchanged.refl c.world with } (Nat.le_refl _) rfl rfl

omit [DecidableEq P] in
theorem Tracked.oneTime {w : World P} (tracked : Tracked w) : OneTime w where
  issued login := by
    have bound {uses : Nat} {closed : Prop} (once : uses = 0 ∨ uses = 1 ∧ closed) : uses ≤ 1 := by
      omega
    cases login with
    | verify id ch => exact bound (tracked.good (.challenge id)).once
    | complete id flow => exact bound (tracked.good (.flow id)).once
    | token code => exact bound (tracked.good (.code code.code)).once
  rotated refreshToken := by
    rcases (tracked.good (.refreshToken refreshToken)).once with unused | ⟨used, -⟩
    · exact Nat.le_of_eq unused |>.trans (Nat.zero_le _)
    · exact Nat.le_of_eq used
  checked challengeId := (tracked.good (.challenge challengeId)).stored.1
  accepted login now expiresAt accepted created := by
    rw [← mem_entriesOf] at accepted created
    cases login with
    | verify id ch => exact (tracked.good (.challenge id)).timely now accepted expiresAt created
    | complete id flow => exact (tracked.good (.flow id)).timely now accepted expiresAt created
    | token code => exact (tracked.good (.code code.code)).timely now accepted expiresAt created
  acknowledged flowId signerAddress acknowledged entry stored :=
    ((tracked.good (.flow flowId)).stored entry stored).acknowledged signerAddress
      (mem_entriesOf.mpr acknowledged)

omit [DecidableEq P] in
theorem tracked_initial (now : Nat) (apps : List OAuthApp) : Tracked (World.initial now apps : World P) := by
  have view (x : Credential) : (World.initial now apps : World P).view x = View.untouched x := by
    cases x <;> rfl
  refine ⟨fun x => ?_, fun x _ => view x, List.nodup_nil⟩
  rw [view]
  exact View.good_untouched _ x

/-- In orderly runs every credential is used once. -/
theorem orderly_one_time (outside : Outside) {c : Config (World P) (Call P)}
    (reached : (system outside).ReachableWhen Orderly c) : OneTime c.world := by
  have inv : OneHolder c := by
    refine reached.invariant ?_ orderly_preserves
    rintro c ⟨⟨now, apps, world⟩, idle⟩
    refine ⟨Config.holds_idle (world ▸ tracked_initial now apps) idle, fun j k l m _ found => ?_⟩
    rw [idle] at found
    contradiction
  exact inv.holds.world.oneTime

/-- `Orderly` where only requests numbered below `n` run. -/
def orderlyBelow (n : Nat) (c : Config (World P) (Call P)) : Act (Request P) Unit (Event P) → Bool
  | .start _ request => (List.range n).all fun k => (c.live k).all fun call =>
    request.route.credential.all fun x => decide (x ∉ call.pending.holds)
  | .resume k () => (c.live k).all fun call => prompt c.world call.self call.pending
  | .abort _ | .environment _ => true

theorem orderly_of_below (n : Nat) (c : Config (World P) (Call P)) (a : Act (Request P) Unit (Event P))
    (idle : ∀ k, n ≤ k → c.live k = none) (checked : orderlyBelow n c a = true) : Orderly c a := by
  cases a with
  | start j request =>
    intro x named k call found held
    by_cases small : k < n
    · have apart := List.all_eq_true.mp checked k (List.mem_range.mpr small)
      rw [found, named] at apart
      exact of_decide_eq_true apart held
    · rw [idle k (Nat.le_of_not_lt small)] at found
      contradiction
  | resume k choice =>
    intro call found
    rw [orderlyBelow, found] at checked
    exact checked
  | abort | environment => trivial

def verifiesAll : Outside := ⟨fun _ _ _ => some true, fun _ _ => false⟩

/-- A login by challenge, and a refresh with the token it returned. -/
def refreshedLogin : Run :=
  alone 0 (.challenge ⟨"10.0.0.1", "GA", "testnet", "explorer-web"⟩) 3 ++
    alone 1 (.verify ⟨"GA", 1, "c2ln"⟩) 9 ++ alone 2 (.refresh 5) 3

theorem refreshed_login_one_time : ∃ c, (system verifiesAll).run idle refreshedLogin = some c ∧
    c.world.history.issues.length = 1 ∧ c.world.history.rotations = [5] ∧ OneTime c.world :=
  ⟨_, rfl, rfl, rfl, orderly_one_time verifiesAll
    (Transition.System.reachableWhen_of_run (system verifiesAll) idle refreshedLogin ⟨⟨0, [], rfl⟩, rfl⟩
      (Program.guarded_below 3 (orderlyBelow 3) (orderly_of_below 3) rfl (fun _ _ => rfl) rfl) rfl)⟩

/-- The second request is shown the challenge before the first deletes it. -/
def twoVerifies : Run :=
  let verify (k : Nat) (steps : Nat) : Run := List.replicate steps (.resume k ())
  alone 0 (.challenge ⟨"10.0.0.1", "GA", "testnet", "explorer-web"⟩) 3 ++
    alone 1 (.verify ⟨"GA", 1, "c2ln"⟩) 3 ++ alone 2 (.verify ⟨"GA", 1, "c2ln"⟩) 3 ++
    verify 1 6 ++ verify 2 5

theorem two_verifies_issue_twice : ¬ ∀ c : Config (World Unit) (Call Unit),
    (system verifiesAll).Reachable c → OneTime c.world := by
  intro claim
  have reached := Transition.System.reachable_of_run (system verifiesAll) idle twoVerifies
    ⟨⟨0, [], rfl⟩, rfl⟩ rfl
  have once := (claim _ reached).issued
    (.verify 1 ⟨1, "GA", "testnet", "explorer-web", 0, "", 300000, 0⟩)
  exact absurd once (by decide)

end Octraban.Auth
