import Octraban.Auth.Handlers
import Mathlib.Data.List.Nodup

/-! How sessions end: a session lookup passes only for a session that was never
closed and, where refreshes and lookups are timely, has not expired. -/
namespace Octraban.Auth
open Interleaving

variable {P : Type*} {outside : Outside}

/-- No lookup has passed after its session was closed, or at or after the
expiry set when it was opened. -/
def SessionsEnd : List SessionEvent → Prop
  | [] => True
  | .through id now :: earlier =>
    .closed id ∉ earlier ∧ (∀ expiresAt, .opened id expiresAt ∈ earlier → now < expiresAt) ∧
      SessionsEnd earlier
  | .opened .. :: earlier | .closed _ :: earlier => SessionsEnd earlier

/-- A refresh signs only while a whole access token ends by the session's expiry,
and no lookup comes after the token's own. -/
def timely (c : Config (World P) (Call P)) : Act (Request P) Unit (Event P) → Bool
  | .resume k () =>
    match c.live k with
    | some ⟨_, .refreshSign _ session⟩ =>
      (c.world.now / 1000 + ACCESS_TOKEN_TTL) * 1000 ≤ session.expiresAt
    | some ⟨_, .lookup token _⟩ => c.world.now / 1000 < token.exp
    | _ => true
  | _ => true

/-- The row of the session and its expiry, which no handler changes. -/
def World.Row (w : World P) (sessionId expiresAt : Nat) : Prop :=
  ∃ row ∈ w.sessions, row.sessionId = sessionId ∧ row.expiresAt = expiresAt

structure Lasting (w : World P) : Prop where
  ids : (w.sessions.map AuthSession.sessionId).Nodup
  opened : .opened sessionId expiresAt ∈ w.history.sessions → w.Row sessionId expiresAt
  closed : .closed sessionId ∈ w.history.sessions →
    ∃ row ∈ w.sessions, row.sessionId = sessionId ∧ row.isActive = false
  bound : ∀ row ∈ w.sessions, row.tokenHash.exp * 1000 ≤ row.expiresAt
  ended : SessionsEnd w.history.sessions

/-- What a suspended request knows of the session it works on. -/
def Pledged (w : World P) : Pending → Prop
  | .refreshSign _ session => w.Row session.sessionId session.expiresAt
  | .refreshUpdate _ session tokens =>
    w.Row session.sessionId session.expiresAt ∧ tokens.token.exp * 1000 ≤ session.expiresAt
  | .createSession _ tokens => tokens.token.exp * 1000 ≤ w.now + ACCESS_TOKEN_TTL * 1000
  | _ => True

def Pending.pledging : Pending → Bool
  | .refreshSign .. | .refreshUpdate .. | .createSession .. => true
  | _ => false

theorem pledged_of_not_pledging (w : World P) {pending : Pending} (other : pending.pledging = false) :
    Pledged w pending := by
  cases pending <;> trivial

/-- Rows stay, and time only passes. -/
def Stays (w w' : World P) : Prop :=
  (∀ sessionId expiresAt, w.Row sessionId expiresAt → w'.Row sessionId expiresAt) ∧ w.now ≤ w'.now

theorem Pledged.stays {w w' : World P} {pending : Pending} (pledged : Pledged w pending)
    (stays : Stays w w') : Pledged w' pending := by
  cases pending with
  | refreshSign _ session => exact stays.1 _ _ pledged
  | refreshUpdate _ session tokens => exact ⟨stays.1 _ _ pledged.1, pledged.2⟩
  | createSession _ tokens => exact Nat.le_trans pledged (Nat.add_le_add_right stays.2 _)
  | _ => trivial

/-- The segment leaves sessions alone. -/
structure Quiet (w : World P) (segment : Segment P) : Prop where
  now : segment.1.now = w.now
  sessions : segment.1.sessions = w.sessions
  events : segment.1.history.sessions = w.history.sessions
  next : segment.2.any Pending.pledging = false

theorem checkSignature_quiet {w w' : World P} (now : w'.now = w.now) (sessions : w'.sessions = w.sessions)
    (events : w'.history.sessions = w.history.sessions) (body : VerifyBody) (ch : ChallengeData) :
    Quiet w (checkSignature outside w' body ch) := by
  unfold checkSignature
  split <;> exact ⟨now, sessions, events, rfl⟩

theorem proceed_quiet {w w' : World P} (now : w'.now = w.now) (sessions : w'.sessions = w.sessions)
    (events : w'.history.sessions = w.history.sessions) (login : Login) (user : WalletUser) :
    Quiet w (login.proceed w' user) := by
  cases login <;> exact ⟨now, sessions, events, rfl⟩

theorem findUser_quiet (w : World P) (login : Login) (address : String) :
    Quiet w (findUser w login address) := by
  unfold findUser
  split
  · exact ⟨rfl, rfl, rfl, rfl⟩
  · split
    · exact ⟨rfl, rfl, rfl, rfl⟩
    · apply proceed_quiet <;> rfl

theorem createUser_quiet (w : World P) (login : Login) (address : String) :
    Quiet w (createUser w login address) := by
  unfold createUser
  split
  · exact ⟨rfl, rfl, rfl, rfl⟩
  · apply proceed_quiet <;> rfl

theorem tokenFindApp_quiet (w : World P) (body : TokenBody) : Quiet w (tokenFindApp w body) := by
  unfold tokenFindApp
  split
  · exact ⟨rfl, rfl, rfl, rfl⟩
  · split <;> exact ⟨rfl, rfl, rfl, rfl⟩

theorem tokenFindCode_quiet (w : World P) (body : TokenBody) : Quiet w (tokenFindCode w body) := by
  unfold tokenFindCode
  split
  · exact ⟨rfl, rfl, rfl, rfl⟩
  · split <;> exact ⟨rfl, rfl, rfl, rfl⟩

theorem tokenFindUser_quiet (w : World P) (code : OAuthCode) : Quiet w (tokenFindUser w code) := by
  unfold tokenFindUser
  split
  · exact ⟨rfl, rfl, rfl, rfl⟩
  · apply proceed_quiet <;> rfl

/-- What a segment can do to sessions. -/
inductive SessionStep (w : World P) : Pending → Segment P → Prop where
  | quiet {segment : Segment P} : Quiet w segment → SessionStep w pending segment
  | signed {segment : Segment P} : segment.1.now = w.now → segment.1.sessions = w.sessions →
      segment.1.history.sessions = w.history.sessions → segment.2 = some (.createSession grant tokens) →
      tokens.token.exp = w.now / 1000 + ACCESS_TOKEN_TTL → SessionStep w (.sign grant) segment
  | created : (∀ row ∈ w.sessions, row.sessionId ≠ grant.sessionId) →
      SessionStep w (.createSession grant tokens) (createSession w grant tokens)
  | found : session ∈ w.sessions →
      SessionStep w (.refreshFind refreshToken) (w, some (.refreshSign refreshToken session))
  | resigned {segment : Segment P} : segment.1.now = w.now → segment.1.sessions = w.sessions →
      segment.1.history.sessions = w.history.sessions →
      segment.2 = some (.refreshUpdate refreshToken session tokens) →
      tokens.token.exp = w.now / 1000 + ACCESS_TOKEN_TTL →
      SessionStep w (.refreshSign refreshToken session) segment
  | rotated : SessionStep w (.refreshUpdate refreshToken session tokens)
      (refreshUpdate w refreshToken session tokens)
  | passed {segment : Segment P} : session ∈ w.sessions → passes token session → segment.1 = (w.record fun h =>
        { h with sessions := .through session.sessionId w.now :: h.sessions }) →
      segment.2.any Pending.pledging = false → SessionStep w (.lookup token action) segment
  | closed {segment : Segment P} : segment.1 = w.closeSessions chosen → segment.2.any Pending.pledging = false →
      SessionStep w pending segment

theorem act_cases (w : World P) (sessionId userId : Nat) (action : Action) :
    SessionStep w (.act action sessionId userId) (act w sessionId userId action) := by
  cases action with
  | access => exact .quiet ⟨rfl, rfl, rfl, rfl⟩
  | logout | logoutAll | deleteMe => exact .closed rfl rfl
  | deleteSession chosen =>
    refine .quiet ⟨rfl, rfl, rfl, ?_⟩
    dsimp only [act]
    split <;> rfl
  | wallets walletAddress wallet =>
    dsimp only [act]
    split <;> exact .quiet ⟨rfl, rfl, rfl, rfl⟩
  | authorize clientId redirectUri =>
    dsimp only [act]
    split
    · exact .quiet ⟨rfl, rfl, rfl, rfl⟩
    · split <;> exact .quiet ⟨rfl, rfl, rfl, rfl⟩

theorem lookup_cases (w : World P) (token : Jwt) (action : Action) :
    SessionStep w (.lookup token action) (lookup w token action) := by
  unfold lookup
  split
  · exact .quiet ⟨rfl, rfl, rfl, rfl⟩
  · rename_i session found
    split
    · exact .passed (List.mem_of_find?_eq_some found) (List.find?_some found) rfl rfl
    · exact .quiet ⟨rfl, rfl, rfl, rfl⟩

theorem refreshFind_cases (w : World P) (refreshToken : Nat) :
    SessionStep w (.refreshFind refreshToken) (refreshFind w refreshToken) := by
  unfold refreshFind
  split
  · exact .quiet ⟨rfl, rfl, rfl, rfl⟩
  · rename_i session found
    split
    · exact .quiet ⟨rfl, rfl, rfl, rfl⟩
    · exact .found (List.mem_of_find?_eq_some found)

theorem refreshSign_cases (w : World P) (refreshToken : Nat) (session : AuthSession) :
    SessionStep w (.refreshSign refreshToken session) (refreshSign w refreshToken session) := by
  unfold refreshSign
  split
  · exact .quiet ⟨rfl, rfl, rfl, rfl⟩
  · exact .resigned rfl rfl rfl rfl rfl

variable [DecidableEq P]

theorem rate_quiet (w : World P) (p : P) (body : ChallengeBody) :
    Quiet w (checkChallengeRateLimit w p body) := by
  unfold checkChallengeRateLimit
  dsimp only
  split <;> exact ⟨rfl, rfl, rfl, rfl⟩

theorem verifyStart_quiet (w : World P) (p : P) (body : VerifyBody) :
    Quiet w (verifyStart w p body) := by
  unfold verifyStart World.getChallenge
  dsimp only
  split
  · exact ⟨rfl, rfl, rfl, rfl⟩
  · refine ⟨rfl, rfl, rfl, ?_⟩
    dsimp only
    split <;> rfl

theorem incrementAttempts_quiet (w : World P) (p : P) (body : VerifyBody) (ch : ChallengeData) :
    Quiet w (incrementAttempts outside w p body ch) := by
  unfold incrementAttempts World.getChallenge
  dsimp only
  split
  · apply checkSignature_quiet <;> rfl
  · exact ⟨rfl, rfl, rfl, rfl⟩

theorem countAttempt_quiet (w : World P) (p : P) (body : VerifyBody) (ch data : ChallengeData) :
    Quiet w (countAttempt outside w p body ch data) := by
  unfold countAttempt
  dsimp only
  split
  · exact ⟨rfl, rfl, rfl, rfl⟩
  · apply checkSignature_quiet <;> rfl

theorem contribute_quiet (w : World P) (p : P) (body : ContributeBody) :
    Quiet w (contribute outside w p body) := by
  unfold contribute World.getFlow
  dsimp only
  repeat' split
  all_goals exact ⟨rfl, rfl, rfl, rfl⟩

theorem complete_quiet (w : World P) (p : P) (authFlowId : Nat) :
    Quiet w (complete outside w p authFlowId) := by
  unfold complete World.getFlow
  dsimp only
  repeat' split
  all_goals exact ⟨rfl, rfl, rfl, rfl⟩

theorem resume_cases (w : World P) (p : P) (pending : Pending) :
    SessionStep w pending (resumePending outside w p pending) := by
  cases pending with
  | rateGet body => exact .quiet (rate_quiet w p body)
  | verifyGet body => exact .quiet (verifyStart_quiet w p body)
  | incrementGet body ch => exact .quiet (incrementAttempts_quiet w p body ch)
  | incrementSet body ch data => exact .quiet (countAttempt_quiet w p body ch data)
  | dropGet id =>
    refine .quiet ⟨rfl, rfl, rfl, ?_⟩
    dsimp only [resumePending]
    cases (w.getChallenge p id).1 <;> rfl
  | consumeGet id ch =>
    refine .quiet ⟨rfl, rfl, rfl, ?_⟩
    dsimp only [resumePending]
    cases (w.getChallenge p id).1 <;> rfl
  | findUser login address => exact .quiet (findUser_quiet w login address)
  | createUser login address => exact .quiet (createUser_quiet w login address)
  | updateUser login user => exact .quiet (proceed_quiet rfl rfl rfl login user)
  | sign grant => exact .signed rfl rfl rfl rfl rfl
  | createSession grant tokens =>
    by_cases taken : w.sessions.any fun row => row.sessionId = grant.sessionId
    · refine .quiet ?_
      simp only [resumePending, createSession, if_pos taken]
      exact ⟨rfl, rfl, rfl, rfl⟩
    · refine .created fun row member same => taken ?_
      exact List.any_eq_true.mpr ⟨row, member, decide_eq_true same⟩
  | refreshFind refreshToken => exact refreshFind_cases w refreshToken
  | refreshSign refreshToken session => exact refreshSign_cases w refreshToken session
  | refreshUpdate refreshToken session tokens => exact .rotated
  | verifyToken token action =>
    refine .quiet ⟨rfl, rfl, rfl, ?_⟩
    dsimp only [resumePending, verifyToken]
    split <;> rfl
  | lookup token action => exact lookup_cases w token action
  | act action sessionId userId => exact act_cases w sessionId userId action
  | deleteFound sessionId => exact .closed rfl rfl
  | contributeGet body => exact .quiet (contribute_quiet w p body)
  | completeGet id => exact .quiet (complete_quiet w p id)
  | tokenFindApp body => exact .quiet (tokenFindApp_quiet w body)
  | tokenFindCode body => exact .quiet (tokenFindCode_quiet w body)
  | tokenFindUser code => exact .quiet (tokenFindUser_quiet w code)
  | _ => exact .quiet ⟨rfl, rfl, rfl, rfl⟩

omit [DecidableEq P] in
theorem Lasting.expiry_unique {w : World P} (lasting : Lasting w) {sessionId e : Nat}
    (row : w.Row sessionId e) {other : AuthSession} (member : other ∈ w.sessions)
    (same : other.sessionId = sessionId) : other.expiresAt = e := by
  obtain ⟨first, stored, rfl, rfl⟩ := row
  exact congrArg AuthSession.expiresAt (List.inj_on_of_nodup_map lasting.ids member stored same)

/-- A change of rows that keeps ids and expiries and opens nothing again. -/
structure Amends (amend : AuthSession → AuthSession) : Prop where
  sessionId : ∀ row, (amend row).sessionId = row.sessionId
  expiresAt : ∀ row, (amend row).expiresAt = row.expiresAt
  inactive : ∀ row, row.isActive = false → (amend row).isActive = false

omit [DecidableEq P] in
theorem Amends.row {w w' : World P} {amend : AuthSession → AuthSession} (amends : Amends amend)
    (sessions : w'.sessions = w.sessions.map amend) (sessionId expiresAt : Nat)
    (row : w.Row sessionId expiresAt) : w'.Row sessionId expiresAt := by
  obtain ⟨row, member, rfl, rfl⟩ := row
  refine ⟨amend row, ?_, amends.sessionId row, amends.expiresAt row⟩
  rw [sessions]
  exact List.mem_map_of_mem member

omit [DecidableEq P] in
theorem Lasting.amend {w w' : World P} {amend : AuthSession → AuthSession} (lasting : Lasting w)
    (amends : Amends amend) (sessions : w'.sessions = w.sessions.map amend)
    (events : ∀ event ∈ w'.history.sessions, event ∈ w.history.sessions ∨
      ∃ row ∈ w.sessions, event = .closed row.sessionId ∧ (amend row).isActive = false)
    (bound : ∀ row ∈ w.sessions, (amend row).tokenHash.exp * 1000 ≤ row.expiresAt)
    (ended : SessionsEnd w'.history.sessions) : Lasting w' where
  ids := by
    have same : w'.sessions.map AuthSession.sessionId = w.sessions.map AuthSession.sessionId := by
      rw [sessions, List.map_map]
      exact List.map_congr_left fun row _ => amends.sessionId row
    rw [same]
    exact lasting.ids
  opened := by
    intro id e opened
    rcases events _ opened with before | ⟨row, -, ⟨⟩, -⟩
    exact amends.row sessions id e (lasting.opened before)
  closed := by
    intro id closed
    have found : ∃ row ∈ w.sessions, row.sessionId = id ∧ (amend row).isActive = false := by
      rcases events _ closed with before | ⟨row, stored, ⟨⟩, inactive⟩
      · obtain ⟨row, stored, same, inactive⟩ := lasting.closed before
        exact ⟨row, stored, same, amends.inactive row inactive⟩
      · exact ⟨row, stored, rfl, inactive⟩
    obtain ⟨row, stored, same, inactive⟩ := found
    refine ⟨amend row, ?_, (amends.sessionId row).trans same, inactive⟩
    rw [sessions]
    exact List.mem_map_of_mem stored
  bound := by
    intro row member
    rw [sessions] at member
    obtain ⟨old, stored, rfl⟩ := List.mem_map.mp member
    rw [amends.expiresAt]
    exact bound old stored
  ended := ended

theorem sessionsEnd_closed (closed : List Nat) {events : List SessionEvent}
    (ended : SessionsEnd events) : SessionsEnd (closed.map SessionEvent.closed ++ events) := by
  induction closed with
  | nil => exact ended
  | cons id rest ih => exact ih

omit [DecidableEq P] in
theorem Lasting.closeSessions {w : World P} (lasting : Lasting w) (chosen : AuthSession → Bool) :
    Lasting (w.closeSessions chosen) ∧ Stays w (w.closeSessions chosen) := by
  have amends : Amends fun row => if chosen row then { row with isActive := false } else row := by
    constructor <;> intro row <;> split <;> simp_all
  refine ⟨lasting.amend amends rfl ?_ ?_ ?_, amends.row rfl, Nat.le_refl _⟩
  · intro event member
    rcases List.mem_append.mp member with closed | before
    · obtain ⟨row, stored, rfl⟩ := List.mem_map.mp closed
      obtain ⟨stored, picked⟩ := List.mem_filter.mp stored
      exact .inr ⟨row, stored, rfl, by rw [if_pos picked]⟩
    · exact .inl before
  · intro row member
    have := lasting.bound row member
    split <;> exact this
  · have closed := sessionsEnd_closed ((w.sessions.filter chosen).map AuthSession.sessionId) lasting.ended
    rw [List.map_map] at closed
    exact closed

omit [DecidableEq P] in
theorem Lasting.refreshUpdate {w : World P} (lasting : Lasting w) (refreshToken : Nat)
    {session : AuthSession} {tokens : TokenPair} (row : w.Row session.sessionId session.expiresAt)
    (short : tokens.token.exp * 1000 ≤ session.expiresAt) :
    Lasting (refreshUpdate w refreshToken session tokens).1 ∧
      Stays w (refreshUpdate w refreshToken session tokens).1 := by
  have amends : Amends fun row => if row.sessionId = session.sessionId then
      { row with tokenHash := tokens.token, refreshTokenHash := tokens.refreshToken } else row := by
    constructor <;> intro row <;> split <;> simp_all
  refine ⟨lasting.amend amends rfl (fun event member => .inl member) ?_ lasting.ended,
    amends.row rfl, Nat.le_refl _⟩
  intro other member
  split
  · rename_i same
    rw [lasting.expiry_unique row member same]
    exact short
  · exact lasting.bound other member

omit [DecidableEq P] in
theorem Lasting.createSession {w : World P} (lasting : Lasting w) {grant : Grant} {tokens : TokenPair}
    (fresh : ∀ row ∈ w.sessions, row.sessionId ≠ grant.sessionId)
    (short : tokens.token.exp * 1000 ≤ w.now + ACCESS_TOKEN_TTL * 1000) :
    Lasting (createSession w grant tokens).1 ∧ Stays w (createSession w grant tokens).1 := by
  have free : ¬ w.sessions.any fun row => row.sessionId = grant.sessionId := by
    rw [List.any_eq_true]
    rintro ⟨row, member, same⟩
    exact fresh row member (of_decide_eq_true same)
  simp only [Auth.createSession, if_neg free]
  have stays (sessionId e : Nat) (row : w.Row sessionId e) :
      ∃ row ∈ (⟨grant.sessionId, grant.userId, tokens.token, tokens.refreshToken, grant.appId, true,
        w.now + REFRESH_TOKEN_TTL * 1000⟩ : AuthSession) :: w.sessions,
        row.sessionId = sessionId ∧ row.expiresAt = e := by
    obtain ⟨row, member, same⟩ := row
    exact ⟨row, List.mem_cons_of_mem _ member, same⟩
  refine ⟨⟨?_, ?_, ?_, ?_, lasting.ended⟩, stays, Nat.le_refl _⟩
  · refine List.nodup_cons.mpr ⟨fun member => ?_, lasting.ids⟩
    obtain ⟨row, stored, same⟩ := List.mem_map.mp member
    exact fresh row stored same
  · intro sessionId e opened
    rcases List.mem_cons.mp opened with ⟨⟨⟩⟩ | before
    · exact ⟨_, List.mem_cons_self, rfl, rfl⟩
    · exact stays sessionId e (lasting.opened before)
  · intro sessionId closed
    rcases List.mem_cons.mp closed with ⟨⟨⟩⟩ | before
    obtain ⟨row, stored, inactive⟩ := lasting.closed before
    exact ⟨row, List.mem_cons_of_mem _ stored, inactive⟩
  · intro row member
    rcases List.mem_cons.mp member with rfl | stored
    · have shorter : ACCESS_TOKEN_TTL ≤ REFRESH_TOKEN_TTL := by decide
      exact short.trans (Nat.add_le_add_left (Nat.mul_le_mul_right 1000 shorter) _)
    · exact lasting.bound row stored

omit [DecidableEq P] in
/-- A timely lookup that passes does so before the session's expiry. -/
theorem Lasting.through {w w' : World P} (lasting : Lasting w) {token : Jwt} {session : AuthSession}
    (stored : session ∈ w.sessions) (passing : passes token session)
    (timely : w.now / 1000 < token.exp) (world : w' = w.record fun h =>
      { h with sessions := .through session.sessionId w.now :: h.sessions }) :
    Lasting w' ∧ Stays w w' := by
  subst world
  simp only [passes, Bool.and_eq_true, decide_eq_true_eq] at passing
  obtain ⟨⟨-, rfl⟩, active⟩ := passing
  have event {other : SessionEvent} (member : other ∈ SessionEvent.through session.sessionId w.now ::
      w.history.sessions) (different : other ≠ .through session.sessionId w.now) :
      other ∈ w.history.sessions := (List.mem_cons.mp member).resolve_left different
  refine ⟨⟨lasting.ids, fun opened => lasting.opened (event opened nofun),
    fun closed => lasting.closed (event closed nofun), lasting.bound, ?_, ?_, lasting.ended⟩,
    fun _ _ row => row, Nat.le_refl _⟩
  · intro closed
    obtain ⟨row, member, same, inactive⟩ := lasting.closed closed
    rw [List.inj_on_of_nodup_map lasting.ids member stored same, active] at inactive
    contradiction
  · intro expiresAt opened
    have expiry := lasting.expiry_unique (lasting.opened opened) stored rfl
    have bound := lasting.bound session stored
    omega

omit [DecidableEq P] in
theorem Quiet.lasting {w : World P} {segment : Segment P} (quiet : Quiet w segment)
    (lasting : Lasting w) : Lasting segment.1 ∧ Stays w segment.1 ∧
      ∀ next, segment.2 = some next → Pledged segment.1 next := by
  have row (id e : Nat) : segment.1.Row id e ↔ w.Row id e := by
    unfold World.Row
    rw [quiet.sessions]
  refine ⟨⟨?_, ?_, ?_, ?_, ?_⟩, ⟨fun id e => (row id e).mpr, quiet.now.ge⟩, fun next continued => ?_⟩
  · rw [quiet.sessions]
    exact lasting.ids
  · intro id e opened
    rw [quiet.events] at opened
    exact (row id e).mpr (lasting.opened opened)
  · intro id closed
    rw [quiet.events] at closed
    rw [quiet.sessions]
    exact lasting.closed closed
  · rw [quiet.sessions]
    exact lasting.bound
  · rw [quiet.events]
    exact lasting.ended
  · have other := quiet.next
    rw [continued] at other
    exact pledged_of_not_pledging _ other

omit [DecidableEq P] in
theorem SessionStep.lasting {w : World P} {pending : Pending} {segment : Segment P}
    (step : SessionStep w pending segment) (lasting : Lasting w) (pledged : Pledged w pending)
    (signing : ∀ refreshToken session, pending = .refreshSign refreshToken session →
      (w.now / 1000 + ACCESS_TOKEN_TTL) * 1000 ≤ session.expiresAt)
    (looking : ∀ token action, pending = .lookup token action → w.now / 1000 < token.exp) :
    Lasting segment.1 ∧ Stays w segment.1 ∧ ∀ next, segment.2 = some next → Pledged segment.1 next := by
  have none_left {w' : World P} (kept : Lasting w' ∧ Stays w w') (next : Option Pending)
      (other : next.any Pending.pledging = false) :
      Lasting w' ∧ Stays w w' ∧ ∀ pending, next = some pending → Pledged w' pending := by
    refine ⟨kept.1, kept.2, fun pending continued => ?_⟩
    rw [continued] at other
    exact pledged_of_not_pledging _ other
  cases step with
  | quiet quiet => exact quiet.lasting lasting
  | signed now sessions events next exp =>
    obtain ⟨kept, stays, -⟩ := Quiet.lasting (w := w) (⟨now, sessions, events, rfl⟩ : Quiet w (segment.1, none)) lasting
    refine ⟨kept, stays, fun pending continued => ?_⟩
    cases next.symm.trans continued
    change _ ≤ _
    rw [exp, now, Nat.add_mul]
    exact Nat.add_le_add_right (Nat.div_mul_le_self _ _) _
  | created fresh => exact none_left (lasting.createSession fresh pledged) _ (by
      unfold createSession
      split <;> rfl)
  | found stored =>
    refine ⟨lasting, ⟨fun _ _ row => row, Nat.le_refl _⟩, ?_⟩
    rintro _ ⟨⟩
    exact ⟨_, stored, rfl, rfl⟩
  | @resigned refreshToken session tokens _ now sessions events next exp =>
    obtain ⟨kept, stays, -⟩ := Quiet.lasting (w := w) (⟨now, sessions, events, rfl⟩ : Quiet w (segment.1, none)) lasting
    refine ⟨kept, stays, fun pending continued => ?_⟩
    cases next.symm.trans continued
    refine ⟨stays.1 _ _ pledged, ?_⟩
    rw [exp]
    exact signing refreshToken session rfl
  | rotated =>
    obtain ⟨row, short⟩ := pledged
    exact none_left (lasting.refreshUpdate _ row short) _ rfl
  | passed stored passing world next =>
    exact none_left (lasting.through stored passing (looking _ _ rfl) world) _ next
  | closed world next => exact none_left (world ▸ lasting.closeSessions _) _ next

omit [DecidableEq P] in
theorem beginRoute_quiet (w : World P) (route : Route) : Quiet w (beginRoute w route) := by
  cases route with
  | challenge | verify | contribute | token =>
    refine ⟨rfl, rfl, rfl, ?_⟩
    dsimp only [beginRoute]
    split <;> rfl
  | initiate body =>
    dsimp only [beginRoute]
    split <;> exact ⟨rfl, rfl, rfl, rfl⟩
  | refresh | requireAuth | complete | flows => exact ⟨rfl, rfl, rfl, rfl⟩

theorem timely_preserves {c c' : Config (World P) (Call P)} {a : Act (Request P) Unit (Event P)}
    (holds : c.Holds Lasting fun w call => Pledged w call.pending) (punctual : timely c a = true)
    (stepped : (program outside).step c a = some c') :
    c'.Holds Lasting fun w call => Pledged w call.pending := by
  have put {k : Nat} {w : World P} {l : Option (Call P)} (kept : Lasting w) (stays : Stays c.world w)
      (own : ∀ call, l = some call → Pledged w call.pending) :
      (c.put k w l).Holds Lasting fun w call => Pledged w call.pending :=
    Config.holds_put kept own fun _ _ _ found => (holds.live found).stays stays
  cases Program.step_cases stepped with
  | start idle begun =>
    rename_i k request w l
    simp only [program, start] at begun
    split at begun
    · cases begun
      obtain ⟨kept, stays, own⟩ := (beginRoute_quiet c.world request.route).lasting holds.world
      refine put kept stays fun call continued => ?_
      obtain ⟨pending, next, rfl⟩ := Option.map_eq_some_iff.mp continued
      exact own pending next
    · contradiction
  | resume found resumed =>
    rename_i k call choice w l
    cases resumed
    have signing (refreshToken : Nat) (session : AuthSession)
        (pending : call.pending = .refreshSign refreshToken session) :
        (c.world.now / 1000 + ACCESS_TOKEN_TTL) * 1000 ≤ session.expiresAt := by
      obtain ⟨p, _⟩ := call
      cases pending
      simpa only [timely, found, decide_eq_true_eq] using punctual
    have looking (token : Jwt) (action : Action) (pending : call.pending = .lookup token action) :
        c.world.now / 1000 < token.exp := by
      obtain ⟨p, _⟩ := call
      cases pending
      simpa only [timely, found, decide_eq_true_eq] using punctual
    have step : SessionStep c.world call.pending (resumePending outside c.world call.self call.pending) :=
      resume_cases c.world call.self call.pending
    obtain ⟨kept, stays, own⟩ := step.lasting
      holds.world (holds.live found) signing looking
    refine put kept stays fun call continued => ?_
    obtain ⟨pending, next, rfl⟩ := Option.map_eq_some_iff.mp continued
    exact own pending next
  | abort => exact holds.abort
  | environment moved =>
    rename_i event w
    have kept := holds.world
    have quiet : Lasting w ∧ Stays c.world w := by
      cases event with
      | elapse ms =>
        cases moved
        exact ⟨⟨kept.ids, kept.opened, kept.closed, kept.bound, kept.ended⟩, fun _ _ row => row,
          Nat.le_add_right _ _⟩
      | evictChallenge | evictFlow | evictAttempts =>
        cases moved
        exact ⟨⟨kept.ids, kept.opened, kept.closed, kept.bound, kept.ended⟩, fun _ _ row => row,
          Nat.le_refl _⟩
    exact ⟨quiet.1, fun found => (holds.live found).stays quiet.2⟩

/-- In timely runs no lookup passes for a closed or expired session. -/
theorem timely_sessions_end (outside : Outside) {c : Config (World P) (Call P)}
    (reached : (system outside).ReachableWhen (fun c a => timely c a = true) c) : SessionsEnd c.world.history.sessions := by
  have holds : c.Holds Lasting fun w call => Pledged w call.pending := by
    refine reached.invariant ?_ timely_preserves
    rintro c ⟨⟨now, apps, world⟩, idle⟩
    refine Config.holds_idle ?_ idle
    rw [world]
    exact ⟨List.nodup_nil, nofun, nofun, nofun, trivial⟩
  exact holds.world.ended

/-- Every signature verifies. -/
def signsAll : Outside := ⟨fun _ _ _ => some true, fun _ _ => false⟩

/-- Session 3 opens at time 0, with refresh token 5. -/
def login : Run :=
  alone 0 (.challenge ⟨"10.0.0.1", "GA", "testnet", "explorer-web"⟩) 3 ++
    alone 1 (.verify ⟨"GA", 1, "c2ln"⟩) 9

/-- One second before the session expires it is refreshed, and the new token is
used when it has expired. -/
def lateRefresh : Run :=
  login ++ [.environment (.elapse 2591999000)] ++ alone 2 (.refresh 5) 3 ++
    [.environment (.elapse 1000)] ++
    alone 3 (.requireAuth ⟨"GA", 2, 3, "explorer-web", 6, 2678399⟩ .access) 2

/-- The first token is used within its day. -/
def promptUse : Run := login ++ alone 2 (.requireAuth ⟨"GA", 2, 3, "explorer-web", 4, 86400⟩ .access) 3

theorem prompt_use_passes : ∃ c, (system signsAll).run idle promptUse = some c ∧
    SessionsEnd c.world.history.sessions :=
  ⟨_, rfl, timely_sessions_end signsAll (Transition.System.reachableWhen_of_run (system signsAll) idle
    promptUse ⟨⟨0, [], rfl⟩, rfl⟩
    (Transition.System.guarded_of_guardedBy timely (fun _ _ => id) rfl) rfl)⟩

theorem late_refresh_outlives : ¬ ∀ c : Config (World Unit) (Call Unit),
    (system signsAll).Reachable c → SessionsEnd c.world.history.sessions := by
  intro claim
  have reached := Transition.System.reachable_of_run (system signsAll) idle lateRefresh
    ⟨⟨0, [], rfl⟩, rfl⟩ rfl
  have ended := (claim _ reached).2.1 2592000000 (List.mem_singleton.mpr rfl)
  exact absurd ended (by decide)

end Octraban.Auth
