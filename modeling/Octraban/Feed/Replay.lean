import Octraban.Feed.Publisher

/-! websocketServer.ts: a replay request beside the live broadcasts on one connection. -/
namespace Octraban.FeedServer
open JavaScript Feed

structure SubscriptionFilters where
  pools : Option (List String) := none
  tokens : Option (List String) := none
  minAmount : Option String := none
  excludePools : Option (List String) := none
  contracts : Option (List String) := none
  accounts : Option (List String) := none
  eventTypes : Option (List String) := none

/-- The fields of an open connection that decide what is sent. -/
structure WebSocketConnection where
  channels : List String
  filters : Option SubscriptionFilters

inductive Frame where
  | message (channel sequence : String) (data : Value) (timestamp : Int)
  | replay_complete (replayedCount : Nat)
  | error (message : String)

/-- What else happens while a replay waits: a row is stored, and the event of a row is emitted. -/
inductive Event where
  | stored (row : StoredMessage)
  | emitted (message : MessageEvent) (row : StoredMessage)

/-- `items.includes(value)` -/
def includes (items : List String) : Value → Bool
  | .text text => items.contains text
  | _ => false

/-- One filter of `matchesFilters`: no filter passes, and reading a field of null throws. -/
def passes (filter : Option α) (data : Value) (rejects : α → Bool) : Option Bool :=
  match filter, data with
  | none, _ => some true
  | some _, .null | some _, .undefined => none
  | some filter, _ => some (!rejects filter)

/-- Stops at the first filter that rejects or throws. -/
def passesAll : List (Option Bool) → Option Bool
  | [] => some true
  | some true :: rest => passesAll rest
  | result :: _ => result

def matchesFilters (data : Value) (filters : Option SubscriptionFilters) : Option Bool :=
  match filters with
  | none => some true
  | some filters => passesAll [
      passes filters.pools data fun pools =>
        (data.get "poolAddress").truthy && !includes pools (data.get "poolAddress"),
      passes filters.excludePools data fun excludePools =>
        (data.get "poolAddress").truthy && includes excludePools (data.get "poolAddress"),
      passes filters.tokens data fun tokens =>
        ((data.get "tokenIn").truthy || (data.get "tokenOut").truthy) &&
          !(includes tokens (data.get "tokenIn") || includes tokens (data.get "tokenOut")),
      passes (filters.minAmount.filter (· ≠ "")) data fun minAmount =>
        (data.get "amountIn").truthy &&
          (parseFloat (data.get "amountIn").string).lt (parseFloat minAmount),
      passes filters.contracts data fun contracts =>
        (data.get "contractAddress").truthy && !includes contracts (data.get "contractAddress"),
      passes filters.accounts data fun accounts =>
        let account := if (data.get "sourceAccount").truthy then data.get "sourceAccount" else data.get "sender"
        account.truthy && !includes accounts account,
      passes filters.eventTypes data fun eventTypes =>
        (data.get "eventType").truthy && !includes eventTypes (data.get "eventType")]

variable (connection : WebSocketConnection)

def accepts (data : Value) : Bool := matchesFilters data connection.filters = some true

/-- `broadcast` for the one connection. What is sent is listed with the row it is about. -/
def broadcast (message : MessageEvent) (row : StoredMessage) : List (StoredMessage × Frame) :=
  if connection.channels.contains message.channelName && accepts connection message.data then
    [(row, .message message.channelName (bigIntText message.sequence) message.data message.timestamp)]
  else []

def live : List Event → List (StoredMessage × Frame)
  | [] => []
  | .stored _ :: rest => live rest
  | .emitted message row :: rest => broadcast connection message row ++ live rest

def rows : List Event → List StoredMessage
  | [] => []
  | .stored row :: rest => row :: rows rest
  | .emitted _ _ :: rest => rows rest

/-- The query of `getMissedMessages`. -/
def selects (lastSequence : Int) (row : StoredMessage) : Bool :=
  connection.channels.contains row.channelName && decide (lastSequence < row.sequence)

/-- What the database may answer: the order of rows with one sequence number is its own. -/
def Answers (lastSequence : Int) (table missedMessages : List StoredMessage) : Prop :=
  ∃ ordered : List StoredMessage, ordered.Perm (table.filter (selects connection lastSequence)) ∧
    ordered.Pairwise (fun first second => first.sequence ≤ second.sequence) ∧ missedMessages = ordered.take 100

/-- The loop of `handleReplay`, and whether it comes to its end. -/
def sendMissed : List StoredMessage → List (StoredMessage × Frame) × Bool
  | [] => ([], true)
  | msg :: rest =>
    match matchesFilters msg.data connection.filters with
    | none => ([], false)
    | some matched =>
      let (sent, ended) := sendMissed rest
      (if matched then (msg, .message msg.channelName (bigIntText msg.sequence) msg.data msg.timestamp) :: sent
        else sent, ended)

/-- The replay once its query has been answered: what it sends of the rows, and its last frame.
A request for 0 is not served. -/
def handleReplay (lastSequence : Int) (answer : Option (List StoredMessage)) :
    List (StoredMessage × Frame) × Option Frame :=
  if lastSequence = 0 then ([], none)
  else match answer with
    | none => ([], some (.error "Failed to replay messages"))
    | some missedMessages =>
      let (sent, ended) := sendMissed connection missedMessages
      (sent, some (if ended then .replay_complete missedMessages.length else .error "Failed to replay messages"))

/-- The messages the request is for, of those stored before it. -/
def missed (lastSequence : Int) (log : List StoredMessage) : List StoredMessage :=
  log.filter fun row => selects connection lastSequence row && accepts connection row.data

/-- Everything sent about a row from the request to its last frame; the query is answered from
the table as it is after `before`. -/
def transcript (lastSequence : Int) (before after : List Event) (answer : Option (List StoredMessage)) :
    List (StoredMessage × Frame) :=
  live connection before ++ live connection after ++ (handleReplay connection lastSequence answer).1

/-- The sends about the rows of `wanted`. -/
def about (wanted : List StoredMessage) (sent : List (StoredMessage × Frame)) : List StoredMessage :=
  (sent.map Prod.fst).filter fun row => (wanted.map StoredMessage.id).contains row.id

/-- Each row of `wanted` is sent once, in increasing order. -/
structure Delivered (wanted : List StoredMessage) (sent : List (StoredMessage × Frame)) : Prop where
  once : (about wanted sent).Perm wanted
  increasing : (about wanted sent).Pairwise fun first second => first.sequence ≤ second.sequence

/-- The live sends about `wanted` are in order those that the page leaves out, once each, and
nothing of the page belongs before one of them. -/
structure Complementary (wanted missedMessages live : List StoredMessage) : Prop where
  once : live.Nodup
  increasing : live.Pairwise fun first second => first.sequence ≤ second.sequence
  leftOut : ∀ row, row ∈ live ↔ row ∈ wanted ∧ row ∉ missedMessages
  level : ∀ row ∈ wanted, row ∈ missedMessages → ∀ other ∈ live, row.sequence = other.sequence

/-- The replay on its own: the rows of the page that pass, once each and in order, whatever
is broadcast meanwhile. -/
structure Replayed (wanted missedMessages : List StoredMessage) (sent : List (StoredMessage × Frame)) : Prop where
  sends : ∀ row ∈ wanted, row ∈ sent.map Prod.fst ↔ row ∈ missedMessages
  once : (sent.map Prod.fst).Nodup
  increasing : (sent.map Prod.fst).Pairwise fun first second => first.sequence ≤ second.sequence

variable {connection : WebSocketConnection} {lastSequence : Int} {log missedMessages wanted : List StoredMessage}
  {events before after : List Event} {count : Nat}

theorem sendMissed_rows (ended : (sendMissed connection missedMessages).2 = true) :
    (sendMissed connection missedMessages).1.map Prod.fst =
      missedMessages.filter fun row => accepts connection row.data := by
  induction missedMessages with
  | nil => rfl
  | cons msg rest ih =>
    cases checked : matchesFilters msg.data connection.filters with
    | none => simp [sendMissed, checked] at ended
    | some matched =>
      simp only [sendMissed, checked] at ended ⊢
      cases matched with
      | true =>
        have accepted : accepts connection msg.data = true := decide_eq_true checked
        rw [if_pos rfl, List.map_cons, ih ended]
        exact (List.filter_cons_of_pos (p := fun row : StoredMessage => accepts connection row.data) accepted).symm
      | false =>
        have rejected : ¬ accepts connection msg.data = true := by simp [accepts, checked]
        rw [if_neg Bool.false_ne_true, ih ended]
        exact (List.filter_cons_of_neg (p := fun row : StoredMessage => accepts connection row.data) rejected).symm

/-- A replay that is complete has sent the rows of its page that pass. -/
theorem handleReplay_rows
    (completed : (handleReplay connection lastSequence (some missedMessages)).2 = some (.replay_complete count)) :
    (handleReplay connection lastSequence (some missedMessages)).1.map Prod.fst =
      missedMessages.filter fun row => accepts connection row.data := by
  by_cases zero : lastSequence = 0
  · simp [handleReplay, zero] at completed
  · simp only [handleReplay, if_neg zero] at completed ⊢
    cases ended : (sendMissed connection missedMessages).2 with
    | true => exact sendMissed_rows ended
    | false => simp [ended] at completed

/-- Rows of the table are about `wanted` only if they are among it. -/
theorem mem_of_contains {table : List StoredMessage} {row : StoredMessage} (keys : (table.map StoredMessage.id).Nodup)
    (within : ∀ row ∈ wanted, row ∈ table) (member : row ∈ table) :
    (wanted.map StoredMessage.id).contains row.id = true ↔ row ∈ wanted := by
  rw [List.contains_iff_mem, List.mem_map]
  constructor
  · rintro ⟨other, wants, same⟩
    cases List.inj_on_of_nodup_map keys (within other wants) member same
    exact wants
  · exact fun wants => ⟨row, wants, rfl⟩

theorem live_append (first second : List Event) :
    live connection (first ++ second) = live connection first ++ live connection second := by
  induction first with
  | nil => rfl
  | cons event rest ih =>
    cases event with
    | stored row => exact ih
    | emitted message row => simp only [List.cons_append, live, ih, List.append_assoc]

theorem about_append (first second : List (StoredMessage × Frame)) :
    about wanted (first ++ second) = about wanted first ++ about wanted second := by
  simp [about]

/-- A page is in order and holds its rows once; what it leaves out comes after it. -/
structure Paged (table missedMessages : List StoredMessage) (selected : StoredMessage → Bool) : Prop where
  once : missedMessages.Nodup
  increasing : missedMessages.Pairwise fun first second => first.sequence ≤ second.sequence
  within : ∀ row ∈ missedMessages, row ∈ table
  beyond : ∀ row ∈ table, selected row = true → row ∉ missedMessages →
    ∀ earlier ∈ missedMessages, earlier.sequence ≤ row.sequence

theorem paged_of_answers {table : List StoredMessage} (keys : (table.map StoredMessage.id).Nodup)
    (answered : Answers connection lastSequence table missedMessages) :
    Paged table missedMessages (selects connection lastSequence) := by
  obtain ⟨ordered, same, increasing, rfl⟩ := answered
  have once : ordered.Nodup := same.nodup_iff.mpr ((List.Nodup.of_map _ keys).filter _)
  have halves := List.take_append_drop 100 ordered
  constructor
  · exact once.sublist (List.take_sublist 100 ordered)
  · exact increasing.sublist (List.take_sublist 100 ordered)
  · intro row member
    exact (List.mem_filter.mp (same.mem_iff.mp (List.mem_of_mem_take member))).1
  · intro row stored selected left earlier member
    have listed : row ∈ ordered := same.mem_iff.mpr (List.mem_filter.mpr ⟨stored, selected⟩)
    rw [← halves] at listed increasing
    have later := (List.mem_append.mp listed).resolve_left left
    exact (List.pairwise_append.mp increasing).2.2 earlier member row later

/-- Live sends and then those of a page make up what is wanted exactly when they complement
each other. -/
theorem delivered_iff (live : List StoredMessage) {replayed : List StoredMessage} (unique : wanted.Nodup)
    (once : replayed.Nodup) (increasing : replayed.Pairwise fun first second => first.sequence ≤ second.sequence)
    (sends : ∀ row, row ∈ replayed ↔ row ∈ wanted ∧ row ∈ missedMessages)
    (beyond : ∀ row ∈ wanted, row ∉ missedMessages → ∀ earlier ∈ missedMessages, earlier.sequence ≤ row.sequence) :
    ((live ++ replayed).Perm wanted ∧
      (live ++ replayed).Pairwise fun first second => first.sequence ≤ second.sequence) ↔
      Complementary wanted missedMessages live := by
  constructor
  · rintro ⟨same, ordered⟩
    obtain ⟨liveOnce, -, apart⟩ := List.nodup_append'.mp (same.nodup_iff.mpr unique)
    obtain ⟨liveOrdered, -, across⟩ := List.pairwise_append.mp ordered
    have leftOut : ∀ row, row ∈ live ↔ row ∈ wanted ∧ row ∉ missedMessages := by
      intro row
      constructor
      · intro member
        have wants := same.mem_iff.mp (List.mem_append_left _ member)
        exact ⟨wants, fun paged => apart member ((sends row).mpr ⟨wants, paged⟩)⟩
      · rintro ⟨wants, left⟩
        rcases List.mem_append.mp (same.mem_iff.mpr wants) with member | member
        · exact member
        · exact absurd ((sends row).mp member).2 left
    refine ⟨liveOnce, liveOrdered, leftOut, fun row wants paged other member => ?_⟩
    have before := across other member row ((sends row).mpr ⟨wants, paged⟩)
    have after := beyond other ((leftOut other).mp member).1 ((leftOut other).mp member).2 row paged
    exact Int.le_antisymm after before
  · rintro ⟨liveOnce, liveOrdered, leftOut, level⟩
    constructor
    · have apart : live.Disjoint replayed := fun row member paged =>
        ((leftOut row).mp member).2 ((sends row).mp paged).2
      refine (List.perm_ext_iff_of_nodup (List.nodup_append'.mpr ⟨liveOnce, once, apart⟩) unique).mpr fun row => ?_
      rw [List.mem_append, leftOut, sends, ← and_or_left]
      exact and_iff_left (Classical.em _).symm
    · refine List.pairwise_append.mpr ⟨liveOrdered, increasing, fun other member row paged => ?_⟩
      obtain ⟨wants, within⟩ := (sends row).mp paged
      exact (level row wants within other member).ge

/-- A completed replay sends its page, and together with the broadcasts it delivers what was
missed exactly when the two complement each other. -/
theorem replay_iff (log : List StoredMessage) (before after : List Event)
    (keys : ((log ++ rows before).map StoredMessage.id).Nodup)
    (answered : Answers connection lastSequence (log ++ rows before) missedMessages)
    (completed : (handleReplay connection lastSequence (some missedMessages)).2 = some (.replay_complete count)) :
    Replayed (missed connection lastSequence log) missedMessages
        (handleReplay connection lastSequence (some missedMessages)).1 ∧
      (Delivered (missed connection lastSequence log)
          (transcript connection lastSequence before after (some missedMessages)) ↔
        Complementary (missed connection lastSequence log) missedMessages
          (about (missed connection lastSequence log) (live connection (before ++ after)))) := by
  have paged := paged_of_answers keys answered
  have sent := handleReplay_rows completed
  have unique : (missed connection lastSequence log).Nodup := by
    have stored := List.Nodup.of_map _ keys
    exact (List.nodup_append'.mp stored).1.filter _
  have wants : ∀ row ∈ missed connection lastSequence log,
      row ∈ log ∧ selects connection lastSequence row = true ∧ accepts connection row.data = true := by
    intro row member
    simpa only [missed, List.mem_filter, Bool.and_eq_true] using member
  have sends : ∀ row ∈ missed connection lastSequence log,
      row ∈ missedMessages.filter (fun row => accepts connection row.data) ↔ row ∈ missedMessages := by
    intro row member
    rw [List.mem_filter]
    exact and_iff_left (wants row member).2.2
  have once := paged.once.filter fun row => accepts connection row.data
  have increasing := paged.increasing.filter fun row => accepts connection row.data
  refine ⟨⟨?_, ?_, ?_⟩, ?_⟩
  · rwa [sent]
  · rwa [sent]
  · rwa [sent]
  · have own : ∀ row, row ∈ about (missed connection lastSequence log)
        (handleReplay connection lastSequence (some missedMessages)).1 ↔
          row ∈ missed connection lastSequence log ∧ row ∈ missedMessages := by
      intro row
      rw [about, sent, List.mem_filter, List.mem_filter]
      constructor
      · rintro ⟨⟨listed, -⟩, same⟩
        have member := (mem_of_contains keys (fun row member => List.mem_append_left _ (wants row member).1)
          (paged.within row listed)).mp same
        exact ⟨member, listed⟩
      · rintro ⟨member, listed⟩
        exact ⟨⟨listed, (wants row member).2.2⟩, List.contains_iff_mem.mpr (List.mem_map_of_mem member)⟩
    have cut : about (missed connection lastSequence log)
        (transcript connection lastSequence before after (some missedMessages)) =
        about (missed connection lastSequence log) (live connection (before ++ after)) ++
          about (missed connection lastSequence log)
            (handleReplay connection lastSequence (some missedMessages)).1 := by
      rw [transcript, ← live_append, about_append]
    have result := delivered_iff (about (missed connection lastSequence log) (live connection (before ++ after)))
      unique ?_ ?_ own ?_
    · rw [← result, ← cut]
      exact ⟨fun delivered => ⟨delivered.once, delivered.increasing⟩, fun both => ⟨both.1, both.2⟩⟩
    · rw [about, sent]
      exact once.filter _
    · rw [about, sent]
      exact increasing.filter _
    · intro row member left
      exact paged.beyond row (List.mem_append_left _ (wants row member).1) (wants row member).2.1 left

def trades : WebSocketConnection := ⟨["trades"], some {}⟩

def trade (id : String) (sequence : Int) : StoredMessage :=
  ⟨id, "trades", .object [], sequence, some 0, some 1, 0⟩

def emittedFor (row : StoredMessage) : MessageEvent :=
  ⟨⟨row.channelName, row.data, 1, row.timestamp⟩, row.sequence, row.indexedAt⟩

/-- The event of the one missed message was emitted before the request. -/
theorem quiet_replay :
    Replayed (missed trades 1 [trade "a" 1, trade "b" 2]) [trade "b" 2]
        (handleReplay trades 1 (some [trade "b" 2])).1 ∧
      (Delivered (missed trades 1 [trade "a" 1, trade "b" 2]) (transcript trades 1 [] [] (some [trade "b" 2])) ↔
        Complementary (missed trades 1 [trade "a" 1, trade "b" 2]) [trade "b" 2]
          (about (missed trades 1 [trade "a" 1, trade "b" 2]) (live trades []))) :=
  replay_iff [trade "a" 1, trade "b" 2] [] [] (by decide)
    ⟨[trade "b" 2], List.Perm.refl _, List.pairwise_singleton _ _, rfl⟩ rfl

/-- The event of a stored message is emitted while its replay waits. -/
theorem emitted_meanwhile_sent_twice : ¬ ∀ (connection : WebSocketConnection) (lastSequence : Int)
    (log : List StoredMessage) (before after : List Event) (missedMessages : List StoredMessage) (count : Nat),
    ((log ++ rows before).map StoredMessage.id).Nodup →
    Answers connection lastSequence (log ++ rows before) missedMessages →
    (handleReplay connection lastSequence (some missedMessages)).2 = some (.replay_complete count) →
    Delivered (missed connection lastSequence log)
      (transcript connection lastSequence before after (some missedMessages)) := by
  intro claimed
  have delivered := claimed trades 1 [trade "b" 2] [.emitted (emittedFor (trade "b" 2)) (trade "b" 2)] []
    [trade "b" 2] 1 (by decide) ⟨[trade "b" 2], List.Perm.refl _, List.pairwise_singleton _ _, rfl⟩ rfl
  exact absurd delivered.once.length_eq (by decide)

end Octraban.FeedServer
