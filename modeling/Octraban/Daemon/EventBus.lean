import Octraban.Core.Interleaving
import Octraban.Core.JavaScript

/-! kafkaEventBus.js: messages kept in one Redis list for each topic, and consumers that
enter the message's id in the set of their group before they handle it. A restart ends
the tasks of its process by aborting them; neither handlers nor the expiry of keys fail
a message here. -/
namespace Octraban.EventBus
open JavaScript Interleaving

structure Envelope (P : Type) where
  messageId : String
  payload : P

def messageId (topic : String) (pid n : Nat) : String :=
  topic ++ ":" ++ String.ofList (decimal pid) ++ ":" ++ String.ofList (decimal n)

def dedupKey (topic groupId : String) : String := "keb:dedup:" ++ topic ++ ":" ++ groupId

/-- `handled` lists the handler calls as topic, group and place in the stream,
`completed` the replays that ended, with what they had read. -/
structure World (P : Type) where
  pid : Nat → Nat
  seq : Nat → String → Nat
  streams : String → List (Envelope P)
  dedup : String → List String
  consumers : List (String × String)
  handled : List (String × String × Nat)
  completed : List (String × String × List (Envelope P))

inductive Source (P : Type) where
  | live
  | replay (messages : List (Envelope P))

/-- The Redis command a task awaits; `offset` is the message's place in the stream. -/
inductive Task (P : Type) where
  | exec (topic : String) (message : Envelope P)
  | lRange (topic groupId : String)
  | sAdd (topic groupId : String) (offset : Nat) (message : Envelope P) (source : Source P)
  | expire (topic groupId : String) (offset : Nat) (message : Envelope P) (source : Source P)

/-- The channel hands a published message to a subscribed consumer of a group at any
time: several processes of a group may each get it, or none. -/
inductive Request (P : Type) where
  | publish (process : Nat) (topic : String) (payload : P)
  | createIdempotentConsumer (topic groupId : String)
  | deliver (topic groupId : String) (offset : Nat)
  | replayStream (topic groupId : String)

structure Restart where
  process : Nat
  pid : Nat

variable {P : Type}

def nextMessageId (w : World P) (process : Nat) (topic : String) : String × World P :=
  let n := w.seq process topic + 1
  (messageId topic (w.pid process) n,
    { w with seq := Function.update w.seq process (Function.update (w.seq process) topic n) })

def start (w : World P) : Request P → Option (World P × Option (Task P))
  | .publish process topic payload =>
    let (messageId, w) := nextMessageId w process topic
    some (w, some (.exec topic ⟨messageId, payload⟩))
  | .createIdempotentConsumer topic groupId =>
    some ({ w with consumers := (topic, groupId) :: w.consumers }, none)
  | .deliver topic groupId offset =>
    if (topic, groupId) ∈ w.consumers then
      (w.streams topic)[offset]?.map fun message => (w, some (.sAdd topic groupId offset message .live))
    else none
  | .replayStream topic groupId => some (w, some (.lRange topic groupId))

namespace World

def rPush (w : World P) (topic : String) (message : Envelope P) : World P :=
  { w with streams := Function.update w.streams topic (w.streams topic ++ [message]) }

def sAdd (w : World P) (key id : String) : World P :=
  { w with dedup := Function.update w.dedup key (id :: w.dedup key) }

/-- The call of the handler. -/
def handler (w : World P) (topic groupId : String) (offset : Nat) : World P :=
  { w with handled := (topic, groupId, offset) :: w.handled }

end World

/-- The message at `offset`, or the end of the task. -/
def onward (w : World P) (topic groupId : String) (offset : Nat) :
    Source P → World P × Option (Task P)
  | .live => (w, none)
  | .replay messages =>
    match messages[offset]? with
    | some message => (w, some (.sAdd topic groupId offset message (.replay messages)))
    | none => ({ w with completed := (topic, groupId, messages) :: w.completed }, none)

def resume (w : World P) : Task P → Unit → Option (World P × Option (Task P))
  | .exec topic message, _ => some (w.rPush topic message, none)
  | .lRange topic groupId, _ => some (onward w topic groupId 0 (.replay (w.streams topic)))
  | .sAdd topic groupId offset message source, _ =>
    let key := dedupKey topic groupId
    if message.messageId ∈ w.dedup key then some (onward w topic groupId (offset + 1) source)
    else some (w.sAdd key message.messageId, some (.expire topic groupId offset message source))
  | .expire topic groupId offset _ source, _ =>
    some (onward (w.handler topic groupId offset) topic groupId (offset + 1) source)

/-- The new process counts from one again. -/
def environment (w : World P) (restart : Restart) : Option (World P) :=
  some { w with
    pid := Function.update w.pid restart.process restart.pid
    seq := Function.update w.seq restart.process fun _ => 0 }

def program (P : Type) : Program (World P) (Task P) (Request P) Unit Restart := ⟨start, resume, environment⟩

def boot (pid : Nat → Nat) : World P :=
  ⟨pid, fun _ _ => 0, fun _ => [], fun _ => [], [], [], []⟩

def system (P : Type) : Transition.System (Config (World P) (Task P)) (Act (Request P) Unit Restart) :=
  (program P).system fun w => ∃ pid, w = boot pid

/-- What a task has added to the set of its group and not handled yet. -/
def Task.holds : Task P → List (String × String × Nat)
  | .expire topic groupId offset _ _ => [(topic, groupId, offset)]
  | _ => []

/-- Some task of the group is between adding the message and handling it. -/
def Busy (c : Config (World P) (Task P)) (item : String × String × Nat) : Prop :=
  ∃ k l, c.live k = some l ∧ item ∈ l.holds

structure Delivered (c : Config (World P) (Task P)) : Prop where
  once : ∀ item, c.world.handled.count item ≤ 1
  every : ∀ topic groupId messages, (topic, groupId, messages) ∈ c.world.completed →
    ∀ offset < messages.length, ¬ Busy c (topic, groupId, offset) →
      c.world.handled.count (topic, groupId, offset) = 1

/-- A message gets an id that no message of its topic has, and no task ends between
adding a message and handling it. -/
def careful (c : Config (World P) (Task P)) : Act (Request P) Unit Restart → Bool
  | .resume k _ => match c.live k with
    | some (.exec topic message) => (c.world.streams topic).all (·.messageId ≠ message.messageId)
    | _ => true
  | .abort k => match c.live k with
    | some (.expire ..) => false
    | _ => true
  | .start .. | .environment _ => true

theorem messageId_inj {topic topic' : String} {pid pid' n n' : Nat}
    (same : messageId topic pid n = messageId topic' pid' n') : topic = topic' ∧ pid = pid' ∧ n = n' := by
  have texts := String.toList_inj.mpr same
  simp only [messageId, String.toList_append, String.toList_ofList] at texts
  have counter := lastField_inj ⟨notMem_decimal rfl n, notMem_decimal rfl n'⟩ texts
  have process := lastField_inj ⟨notMem_decimal rfl pid, notMem_decimal rfl pid'⟩ counter.1
  exact ⟨String.toList_inj.mp process.1, decimal_inj process.2, decimal_inj counter.2⟩

theorem dedupKey_inj {topic groupId groupId' : String}
    (same : dedupKey topic groupId = dedupKey topic groupId') : groupId = groupId' :=
  (String.append_right_inj _).mp same

/-- A task relies on the messages before it being in the set of the group. -/
def Through (w : World P) (topic groupId : String) (offset : Nat) : Source P → Prop
  | .live => True
  | .replay messages => messages <+: w.streams topic ∧
    ∀ message ∈ messages.take offset, message.messageId ∈ w.dedup (dedupKey topic groupId)

def Fits (w : World P) : Task P → Prop
  | .exec topic message => ∃ pid n, message.messageId = messageId topic pid n
  | .lRange _ _ => True
  | .sAdd topic groupId offset message source =>
    (w.streams topic)[offset]? = some message ∧ Through w topic groupId offset source
  | .expire topic groupId offset message source =>
    (w.streams topic)[offset]? = some message ∧ message.messageId ∈ w.dedup (dedupKey topic groupId) ∧
      Through w topic groupId offset source

structure Sound (w : World P) : Prop where
  named : ∀ topic, ∀ message ∈ w.streams topic, ∃ pid n, message.messageId = messageId topic pid n
  distinct : ∀ topic, ((w.streams topic).map (·.messageId)).Nodup
  known : ∀ key, ∀ id ∈ w.dedup key, ∃ topic, ∃ message ∈ w.streams topic, message.messageId = id
  beyond : ∀ topic groupId offset, (w.streams topic)[offset]? = none →
    w.handled.count (topic, groupId, offset) = 0
  unadded : ∀ topic groupId offset message, (w.streams topic)[offset]? = some message →
    message.messageId ∉ w.dedup (dedupKey topic groupId) → w.handled.count (topic, groupId, offset) = 0
  completed : ∀ topic groupId messages, (topic, groupId, messages) ∈ w.completed →
    messages <+: w.streams topic ∧ ∀ message ∈ messages, message.messageId ∈ w.dedup (dedupKey topic groupId)

/-- A message in the set of a group is either in the hands of one task or handled once. -/
structure Kept (c : Config (World P) (Task P)) : Prop where
  holds : c.Holds Sound Fits
  apart : c.Apart Task.holds
  busy : ∀ item, Busy c item → c.world.handled.count item = 0
  added : ∀ topic groupId offset message, (c.world.streams topic)[offset]? = some message →
    message.messageId ∈ c.world.dedup (dedupKey topic groupId) → ¬ Busy c (topic, groupId, offset) →
    c.world.handled.count (topic, groupId, offset) = 1

/-- Streams and sets only grow. -/
structure Grows (w w' : World P) : Prop where
  streams : ∀ topic, w.streams topic <+: w'.streams topic
  dedup : ∀ key, w.dedup key ⊆ w'.dedup key

variable {w w' : World P} {c : Config (World P) (Task P)}

theorem Grows.at (grows : Grows w w') {topic : String} {offset : Nat} {message : Envelope P}
    (stored : (w.streams topic)[offset]? = some message) : (w'.streams topic)[offset]? = some message := by
  obtain ⟨rest, longer⟩ := grows.streams topic
  rw [← longer, List.getElem?_append_left (List.getElem?_eq_some_iff.mp stored).1, stored]

theorem Through.grow {topic groupId : String} {offset : Nat} {source : Source P} (grows : Grows w w')
    (through : Through w topic groupId offset source) : Through w' topic groupId offset source := by
  cases source with
  | live => trivial
  | replay messages =>
    exact ⟨through.1.trans (grows.streams topic), fun message member => grows.dedup _ (through.2 message member)⟩

theorem Fits.grow {task : Task P} (grows : Grows w w') (fits : Fits w task) : Fits w' task := by
  cases task with
  | exec topic message => exact fits
  | lRange topic groupId => trivial
  | sAdd topic groupId offset message source => exact ⟨grows.at fits.1, fits.2.grow grows⟩
  | expire topic groupId offset message source =>
    exact ⟨grows.at fits.1, grows.dedup _ fits.2.1, fits.2.2.grow grows⟩

theorem busy_put {k : Nat} {l : Option (Task P)} {item : String × String × Nat} :
    Busy (c.put k w l) item ↔
      (∃ task, l = some task ∧ item ∈ task.holds) ∨
        ∃ j task, j ≠ k ∧ c.live j = some task ∧ item ∈ task.holds := by
  constructor
  · rintro ⟨j, task, found, member⟩
    rcases Config.put_live_some found with ⟨_, live⟩ | ⟨other, live⟩
    · exact .inl ⟨task, live, member⟩
    · exact .inr ⟨j, task, other, live, member⟩
  · rintro (⟨task, rfl, member⟩ | ⟨j, task, other, found, member⟩)
    · exact ⟨k, task, Config.put_live_self _ _ _ _, member⟩
    · exact ⟨j, task, by rwa [Config.put_live_ne _ _ _ other], member⟩

/-- The parts of the world that the invariant of a message looks at. -/
structure Same (w w' : World P) : Prop where
  streams : w'.streams = w.streams
  dedup : w'.dedup = w.dedup
  handled : w'.handled = w.handled

theorem Same.grows (same : Same w w') : Grows w w' := by
  constructor
  · intro topic
    simp [same.streams]
  · intro key
    simp [same.dedup]

theorem Same.sound (same : Same w w') (sound : Sound w)
    (completed : ∀ topic groupId messages, (topic, groupId, messages) ∈ w'.completed →
      messages <+: w.streams topic ∧
        ∀ message ∈ messages, message.messageId ∈ w.dedup (dedupKey topic groupId)) : Sound w' := by
  obtain ⟨streams, dedup, handled⟩ := same
  constructor
  · rw [streams]
    exact sound.named
  · rw [streams]
    exact sound.distinct
  · rw [streams, dedup]
    exact sound.known
  · rw [streams, handled]
    exact sound.beyond
  · rw [streams, dedup, handled]
    exact sound.unadded
  · rw [streams, dedup]
    exact completed

theorem busy_calm {k : Nat} {l : Option (Task P)} (idle : ∀ task, c.live k = some task → task.holds = [])
    (own : ∀ task, l = some task → task.holds = []) (item : String × String × Nat) :
    Busy (c.put k w l) item ↔ Busy c item := by
  rw [busy_put]
  constructor
  · rintro (⟨task, started, member⟩ | ⟨j, task, -, found, member⟩)
    · rw [own task started] at member
      contradiction
    · exact ⟨j, task, found, member⟩
  · rintro ⟨j, task, found, member⟩
    right
    refine ⟨j, task, ?_, found, member⟩
    rintro rfl
    rw [idle task found] at member
    contradiction

/-- A step around the handling of messages. -/
theorem Kept.calm (kept : Kept c) (same : Same c.world w) (sound : Sound w) {k : Nat} {l : Option (Task P)}
    (idle : ∀ task, c.live k = some task → task.holds = [])
    (own : ∀ task, l = some task → Fits w task ∧ task.holds = []) : Kept (c.put k w l) := by
  have busy := busy_calm (w := w) idle fun task started => (own task started).2
  constructor
  · exact Config.holds_put sound (fun task started => (own task started).1)
      fun j task _ found => (kept.holds.live found).grow same.grows
  · apply kept.apart.put
    intro task started j other _ _
    rw [(own task started).2]
    exact List.disjoint_nil_left _
  · intro item working
    rw [Config.put_world, same.handled]
    exact kept.busy item ((busy item).mp working)
  · intro topic groupId offset message stored known free
    rw [Config.put_world, same.streams] at stored
    rw [Config.put_world, same.dedup] at known
    rw [Config.put_world, same.handled]
    exact kept.added topic groupId offset message stored known fun working => free ((busy _).mpr working)

theorem Through.next {topic groupId : String} {offset : Nat} {message : Envelope P} {source : Source P}
    (through : Through w topic groupId offset source) (stored : (w.streams topic)[offset]? = some message)
    (known : message.messageId ∈ w.dedup (dedupKey topic groupId)) :
    Through w topic groupId (offset + 1) source := by
  cases source with
  | live => trivial
  | replay messages =>
    refine ⟨through.1, ?_⟩
    intro read member
    rw [List.take_add_one, List.mem_append] at member
    rcases member with before | last
    · exact through.2 read before
    · have found : messages[offset]? = some read := by simpa using last
      obtain ⟨rest, longer⟩ := through.1
      rw [← longer, List.getElem?_append_left (List.getElem?_eq_some_iff.mp found).1, found] at stored
      cases stored
      exact known

/-- Going on to the next message only notes a finished replay. -/
theorem onward_calm (sound : Sound w) {topic groupId : String} {offset : Nat} {source : Source P}
    (through : Through w topic groupId offset source) :
    Same w (onward w topic groupId offset source).1 ∧ Sound (onward w topic groupId offset source).1 ∧
      ∀ task, (onward w topic groupId offset source).2 = some task →
        Fits (onward w topic groupId offset source).1 task ∧ task.holds = [] := by
  cases source with
  | live => exact ⟨⟨rfl, rfl, rfl⟩, sound, fun task ended => nomatch ended⟩
  | replay messages =>
    cases found : messages[offset]? with
    | some message =>
      simp only [onward, found]
      refine ⟨⟨rfl, rfl, rfl⟩, sound, ?_⟩
      rintro task ⟨rfl⟩
      obtain ⟨rest, longer⟩ := through.1
      refine ⟨⟨?_, through⟩, rfl⟩
      rw [← longer, List.getElem?_append_left (List.getElem?_eq_some_iff.mp found).1, found]
    | none =>
      simp only [onward, found]
      have all : messages.take offset = messages :=
        List.take_of_length_le (List.getElem?_eq_none_iff.mp found)
      have same : Same w { w with completed := (topic, groupId, messages) :: w.completed } := ⟨rfl, rfl, rfl⟩
      refine ⟨same, same.sound sound ?_, fun task ended => nomatch ended⟩
      intro topic' groupId' messages' member
      rcases List.mem_cons.mp member with now | before
      · cases now
        rw [← all]
        exact ⟨by rw [all]; exact through.1, through.2⟩
      · exact sound.completed topic' groupId' messages' before

/-- An id belongs to one place of one stream. -/
theorem Sound.place (sound : Sound w) {topic topic' : String} {offset offset' : Nat}
    {message message' : Envelope P} (stored : (w.streams topic)[offset]? = some message)
    (stored' : (w.streams topic')[offset']? = some message') (same : message'.messageId = message.messageId) :
    topic' = topic ∧ offset' = offset := by
  obtain ⟨pid, n, named⟩ := sound.named topic message (List.mem_of_getElem? stored)
  obtain ⟨pid', n', named'⟩ := sound.named topic' message' (List.mem_of_getElem? stored')
  have topics := (messageId_inj (named'.symm.trans (same.trans named))).1
  subst topics
  refine ⟨rfl, ?_⟩
  have ids : ((w.streams topic').map (·.messageId))[offset']? = ((w.streams topic').map (·.messageId))[offset]? := by
    rw [List.getElem?_map, List.getElem?_map, stored, stored', Option.map_some, Option.map_some, same]
  have inside : offset' < ((w.streams topic').map (·.messageId)).length := by
    rw [List.length_map]
    exact (List.getElem?_eq_some_iff.mp stored').1
  exact (List.getElem?_inj inside (sound.distinct topic')).mp ids

theorem rPush_sound (sound : Sound w) {topic : String} {message : Envelope P} {pid n : Nat}
    (named : message.messageId = messageId topic pid n)
    (fresh : ∀ other ∈ w.streams topic, other.messageId ≠ message.messageId) :
    Grows w (w.rPush topic message) ∧ Sound (w.rPush topic message) := by
  have streams (other : String) : (w.rPush topic message).streams other =
      w.streams other ++ if other = topic then [message] else [] := by
    by_cases same : other = topic
    · subst same
      simp [World.rPush]
    · simp [World.rPush, same]
  have grows : Grows w (w.rPush topic message) :=
    ⟨fun other => ⟨_, (streams other).symm⟩, fun _ => List.Subset.refl _⟩
  have missing (other : String) (offset : Nat) (absent : ((w.rPush topic message).streams other)[offset]? = none) :
      (w.streams other)[offset]? = none := by
    rw [streams, List.getElem?_eq_none_iff, List.length_append] at absent
    exact List.getElem?_eq_none_iff.mpr (by omega)
  refine ⟨grows, ?_⟩
  constructor
  · intro other stored member
    rw [streams] at member
    rcases List.mem_append.mp member with before | last
    · exact sound.named other stored before
    · split at last
      · rename_i same
        rw [List.mem_singleton.mp last, same]
        exact ⟨pid, n, named⟩
      · contradiction
  · intro other
    rw [streams]
    split
    · rename_i same
      subst same
      rw [List.map_append, List.map_singleton]
      apply List.nodup_append.mpr
      refine ⟨sound.distinct _, List.pairwise_singleton _ _, ?_⟩
      intro id member last pushed
      obtain ⟨earlier, found, rfl⟩ := List.mem_map.mp member
      rw [List.mem_singleton.mp pushed]
      exact fresh earlier found
    · rw [List.append_nil]
      exact sound.distinct other
  · intro key id member
    obtain ⟨other, stored, found, same⟩ := sound.known key id member
    exact ⟨other, stored, (grows.streams other).subset found, same⟩
  · intro other groupId offset absent
    exact sound.beyond other groupId offset (missing other offset absent)
  · intro other groupId offset stored found unknown
    cases before : (w.streams other)[offset]? with
    | none => exact sound.beyond other groupId offset before
    | some earlier =>
      have same : earlier = stored := Option.some.inj ((grows.at before).symm.trans found)
      subst same
      exact sound.unadded other groupId offset earlier before unknown
  · intro other groupId messages member
    obtain ⟨read, known⟩ := sound.completed other groupId messages member
    exact ⟨read.trans (grows.streams other), known⟩

theorem rPush_at {topic other : String} {message stored : Envelope P} {offset : Nat}
    (found : ((w.rPush topic message).streams other)[offset]? = some stored) :
    (w.streams other)[offset]? = some stored ∨ (other = topic ∧ stored = message) := by
  by_cases same : other = topic
  · subst same
    simp only [World.rPush, Function.update_self] at found
    by_cases inside : offset < (w.streams other).length
    · rw [List.getElem?_append_left inside] at found
      exact .inl found
    · rw [List.getElem?_append_right (by omega)] at found
      exact .inr ⟨rfl, by simpa using List.mem_of_getElem? found⟩
  · simp only [World.rPush, Function.update_of_ne same] at found
    exact .inl found

/-- A fresh message is in no set yet. -/
theorem exec_kept (kept : Kept c) {k : Nat} {topic : String} {message : Envelope P}
    (found : c.live k = some (.exec topic message))
    (fresh : ∀ other ∈ c.world.streams topic, other.messageId ≠ message.messageId) :
    Kept (c.put k (c.world.rPush topic message) none) := by
  have sound := kept.holds.world
  obtain ⟨pid, n, named⟩ := kept.holds.live found
  obtain ⟨grows, pushed⟩ := rPush_sound sound named fresh
  have idle (task : Task P) (live : c.live k = some task) : task.holds = [] := by
    cases found.symm.trans live
    rfl
  have busy := busy_calm (w := c.world.rPush topic message) (l := none) idle fun task ended => nomatch ended
  constructor
  · exact Config.holds_put pushed (fun task ended => nomatch ended)
      fun j task _ live => (kept.holds.live live).grow grows
  · exact kept.apart.put fun task ended => nomatch ended
  · intro item working
    exact kept.busy item ((busy item).mp working)
  · intro other groupId offset stored place known free
    rcases rPush_at place with before | ⟨rfl, rfl⟩
    · exact kept.added other groupId offset stored before known fun working => free ((busy _).mpr working)
    · obtain ⟨topic', earlier, member, same⟩ := sound.known _ _ known
      obtain ⟨pid', n', named'⟩ := sound.named topic' earlier member
      have topics := (messageId_inj (named'.symm.trans (same.trans named))).1
      subst topics
      exact absurd same (fresh earlier member)

theorem sAdd_sound (sound : Sound w) {topic : String} (groupId : String) {offset : Nat} {message : Envelope P}
    (stored : (w.streams topic)[offset]? = some message) :
    Grows w (w.sAdd (dedupKey topic groupId) message.messageId) ∧
      Sound (w.sAdd (dedupKey topic groupId) message.messageId) := by
  have grows : Grows w (w.sAdd (dedupKey topic groupId) message.messageId) := by
    constructor
    · exact fun other => List.prefix_refl _
    · intro key id member
      by_cases same : key = dedupKey topic groupId
      · subst same
        simp [World.sAdd, member]
      · simpa [World.sAdd, same] using member
  refine ⟨grows, sound.named, sound.distinct, ?_, sound.beyond, ?_, ?_⟩
  · intro key id member
    by_cases same : key = dedupKey topic groupId
    · subst same
      simp only [World.sAdd, Function.update_self, List.mem_cons] at member
      rcases member with new | old
      · exact ⟨topic, message, List.mem_of_getElem? stored, new.symm⟩
      · exact sound.known _ id old
    · simp only [World.sAdd, Function.update_of_ne same] at member
      exact sound.known key id member
  · intro other groupId' place message' found unknown
    exact sound.unadded other groupId' place message' found fun known => unknown (grows.dedup _ known)
  · intro other groupId' messages member
    obtain ⟨read, known⟩ := sound.completed other groupId' messages member
    exact ⟨read, fun message' inside => grows.dedup _ (known message' inside)⟩

/-- What a task holds is a message in the set of its group. -/
theorem Fits.known {task : Task P} (fits : Fits w task) {topic groupId : String} {offset : Nat}
    (member : (topic, groupId, offset) ∈ task.holds) : ∃ message,
      (w.streams topic)[offset]? = some message ∧ message.messageId ∈ w.dedup (dedupKey topic groupId) := by
  cases task with
  | expire topic' groupId' offset' message source =>
    cases List.mem_singleton.mp member
    exact ⟨message, fits.1, fits.2.1⟩
  | exec | lRange | sAdd => contradiction

/-- An added message goes into the hands of the task that added it. -/
theorem sAdd_kept (kept : Kept c) {k : Nat} {topic groupId : String} {offset : Nat} {message : Envelope P}
    {source : Source P} (found : c.live k = some (.sAdd topic groupId offset message source))
    (fresh : message.messageId ∉ c.world.dedup (dedupKey topic groupId)) :
    Kept (c.put k (c.world.sAdd (dedupKey topic groupId) message.messageId)
      (some (.expire topic groupId offset message source))) := by
  have sound := kept.holds.world
  obtain ⟨stored, through⟩ := kept.holds.live found
  obtain ⟨grows, added⟩ := sAdd_sound sound groupId stored
  have unheld (task : Task P) (fits : Fits c.world task) : (topic, groupId, offset) ∉ task.holds := by
    intro member
    obtain ⟨held, place, known⟩ := fits.known member
    cases stored.symm.trans place
    exact fresh known
  constructor
  · apply Config.holds_put added
    · rintro task ⟨rfl⟩
      exact ⟨stored, by simp [World.sAdd], through.grow grows⟩
    · exact fun j task _ live => (kept.holds.live live).grow grows
  · apply kept.apart.put
    rintro task ⟨rfl⟩ j other _ live
    exact List.singleton_disjoint.mpr (unheld other (kept.holds.live live))
  · intro item working
    rcases busy_put.mp working with ⟨task, ⟨rfl⟩, member⟩ | ⟨j, task, -, live, member⟩
    · rw [List.mem_singleton.mp member]
      exact sound.unadded topic groupId offset message stored fresh
    · exact kept.busy item ⟨j, task, live, member⟩
  · intro topic' groupId' offset' message' place known free
    have before : message'.messageId ∈ c.world.dedup (dedupKey topic' groupId') := by
      by_cases keys : dedupKey topic' groupId' = dedupKey topic groupId
      · rw [Config.put_world, keys] at known
        simp only [World.sAdd, Function.update_self, List.mem_cons] at known
        rcases known with same | old
        · obtain ⟨rfl, rfl⟩ := sound.place stored place same
          cases dedupKey_inj keys
          exact absurd (busy_put.mpr (.inl ⟨_, rfl, List.mem_singleton_self _⟩)) free
        · rwa [keys]
      · rw [Config.put_world] at known
        simpa only [World.sAdd, Function.update_of_ne keys] using known
    apply kept.added topic' groupId' offset' message' place before
    rintro ⟨j, task, live, member⟩
    apply free
    apply busy_put.mpr
    right
    refine ⟨j, task, ?_, live, member⟩
    rintro rfl
    cases found.symm.trans live
    contradiction

/-- The handler is called for a message in hand, which then leaves the task's hands. -/
theorem handler_kept (kept : Kept c) {k : Nat} {topic groupId : String} {offset : Nat} {message : Envelope P}
    {source : Source P} (found : c.live k = some (.expire topic groupId offset message source)) :
    Kept (c.put k (c.world.handler topic groupId offset) none) := by
  have sound := kept.holds.world
  obtain ⟨stored, known, -⟩ := kept.holds.live found
  have grows : Grows c.world (c.world.handler topic groupId offset) :=
    ⟨fun other => List.prefix_refl _, fun key => List.Subset.refl _⟩
  have count (item : String × String × Nat) (other : item ≠ (topic, groupId, offset)) :
      (c.world.handler topic groupId offset).handled.count item = c.world.handled.count item :=
    List.count_cons_of_ne other.symm
  have away (item : String × String × Nat) : Busy (c.put k (c.world.handler topic groupId offset) none) item ↔
      Busy c item ∧ item ≠ (topic, groupId, offset) := by
    rw [busy_put]
    constructor
    · rintro (⟨task, ended, -⟩ | ⟨j, task, different, live, member⟩)
      · contradiction
      · refine ⟨⟨j, task, live, member⟩, ?_⟩
        rintro rfl
        exact kept.apart j k _ _ different live found member (List.mem_singleton_self _)
    · rintro ⟨⟨j, task, live, member⟩, other⟩
      right
      refine ⟨j, task, ?_, live, member⟩
      rintro rfl
      cases found.symm.trans live
      exact other (List.mem_singleton.mp member)
  constructor
  · apply Config.holds_put
    · refine ⟨sound.named, sound.distinct, sound.known, ?_, ?_, sound.completed⟩
      · intro topic' groupId' offset' absent
        rw [count]
        · exact sound.beyond topic' groupId' offset' absent
        · rintro ⟨rfl⟩
          rw [show (c.world.handler topic groupId offset).streams = c.world.streams from rfl, stored] at absent
          contradiction
      · intro topic' groupId' offset' message' place unknown
        rw [count]
        · exact sound.unadded topic' groupId' offset' message' place unknown
        · rintro ⟨rfl⟩
          cases stored.symm.trans place
          exact unknown known
    · exact fun task ended => nomatch ended
    · exact fun j task _ live => (kept.holds.live live).grow grows
  · exact kept.apart.put fun task ended => nomatch ended
  · intro item working
    obtain ⟨before, other⟩ := (away item).mp working
    rw [Config.put_world, count item other]
    exact kept.busy item before
  · intro topic' groupId' offset' message' place known' free
    by_cases same : (topic', groupId', offset') = (topic, groupId, offset)
    · rw [same, Config.put_world, World.handler, List.count_cons_self]
      rw [kept.busy _ ⟨k, _, found, List.mem_singleton_self _⟩]
    · rw [Config.put_world, count _ same]
      exact kept.added topic' groupId' offset' message' place known' fun working =>
        free ((away _).mpr ⟨working, same⟩)

theorem start_kept (kept : Kept c) {k : Nat} {request : Request P} {l : Option (Task P)}
    (idle : c.live k = none) (started : start c.world request = some (w, l)) : Kept (c.put k w l) := by
  have sound := kept.holds.world
  have unheld (task : Task P) (live : c.live k = some task) : task.holds = [] := nomatch idle.symm.trans live
  cases request with
  | publish process topic payload =>
    cases started
    have same : Same c.world (nextMessageId c.world process topic).2 := ⟨rfl, rfl, rfl⟩
    apply kept.calm same (same.sound sound sound.completed) unheld
    rintro task ⟨rfl⟩
    exact ⟨⟨_, _, rfl⟩, rfl⟩
  | createIdempotentConsumer topic groupId =>
    cases started
    have same : Same c.world { c.world with consumers := (topic, groupId) :: c.world.consumers } := ⟨rfl, rfl, rfl⟩
    exact kept.calm same (same.sound sound sound.completed) unheld fun task ended => nomatch ended
  | deliver topic groupId offset =>
    simp only [start] at started
    split at started
    · obtain ⟨message, stored, ⟨rfl, rfl⟩⟩ := Option.map_eq_some_iff.mp started
      apply kept.calm ⟨rfl, rfl, rfl⟩ sound unheld
      rintro task ⟨rfl⟩
      exact ⟨⟨stored, trivial⟩, rfl⟩
    · contradiction
  | replayStream topic groupId =>
    cases started
    apply kept.calm ⟨rfl, rfl, rfl⟩ sound unheld
    rintro task ⟨rfl⟩
    exact ⟨trivial, rfl⟩

theorem resume_kept (kept : Kept c) {k : Nat} {task : Task P} {l : Option (Task P)} {choice : Unit}
    (allowed : careful c (.resume k choice) = true) (found : c.live k = some task)
    (resumed : resume c.world task choice = some (w, l)) : Kept (c.put k w l) := by
  have sound := kept.holds.world
  have fits := kept.holds.live found
  cases task with
  | exec topic message =>
    cases resumed
    simp only [careful, found, List.all_eq_true, decide_eq_true_eq] at allowed
    exact exec_kept kept found allowed
  | lRange topic groupId =>
    have next := Option.some.inj resumed
    have through : Through c.world topic groupId 0 (.replay (c.world.streams topic)) :=
      ⟨List.prefix_refl _, fun message none => nomatch none⟩
    obtain ⟨same, sound', own⟩ := onward_calm sound through
    rw [next] at same sound' own
    exact kept.calm same sound' (fun other live => by cases found.symm.trans live; rfl) own
  | sAdd topic groupId offset message source =>
    simp only [resume] at resumed
    split at resumed
    · rename_i known
      have next := Option.some.inj resumed
      obtain ⟨same, sound', own⟩ := onward_calm sound (fits.2.next fits.1 known)
      rw [next] at same sound' own
      exact kept.calm same sound' (fun other live => by cases found.symm.trans live; rfl) own
    · rename_i fresh
      cases resumed
      exact sAdd_kept kept found fresh
  | expire topic groupId offset message source =>
    have next := Option.some.inj resumed
    have handled := handler_kept kept found
    have through : Through (c.world.handler topic groupId offset) topic groupId (offset + 1) source :=
      Through.next fits.2.2 fits.1 fits.2.1
    have called : Sound (c.world.handler topic groupId offset) := handled.holds.world
    obtain ⟨same, sound', own⟩ := onward_calm called through
    rw [next] at same sound' own
    rw [← c.put_put k (c.world.handler topic groupId offset) _ none]
    apply handled.calm same sound' _ own
    intro other live
    rw [Config.put_live_self] at live
    contradiction

theorem careful_preserves {a : Act (Request P) Unit Restart} {c' : Config (World P) (Task P)} (kept : Kept c)
    (allowed : careful c a = true) (stepped : (system P).step c a = some c') : Kept c' := by
  cases Program.step_cases stepped with
  | start idle started => exact start_kept kept idle started
  | resume found resumed => exact resume_kept kept allowed found resumed
  | @abort k =>
    have idle (task : Task P) (live : c.live k = some task) : task.holds = [] := by
      cases task with
      | exec | lRange | sAdd => rfl
      | expire => simp [careful, live] at allowed
    exact kept.calm ⟨rfl, rfl, rfl⟩ kept.holds.world idle fun task ended => nomatch ended
  | environment moved =>
    cases moved
    have sound := kept.holds.world
    exact ⟨⟨⟨sound.named, sound.distinct, sound.known, sound.beyond, sound.unadded, sound.completed⟩,
      fun live => (kept.holds.live live).grow ⟨fun topic => List.prefix_refl _, fun key => List.Subset.refl _⟩⟩,
      kept.apart, kept.busy, kept.added⟩

theorem boot_kept (pid : Nat → Nat) : Kept (⟨boot pid, fun _ => none⟩ : Config (World P) (Task P)) := by
  constructor
  · apply Config.holds_idle _ rfl
    constructor <;> simp [boot]
  · rintro j k l m - live
    contradiction
  · rintro item ⟨k, task, live, -⟩
    contradiction
  · intro topic groupId offset message stored
    simp [boot] at stored

theorem Kept.delivered (kept : Kept c) : Delivered c := by
  have sound := kept.holds.world
  constructor
  · rintro ⟨topic, groupId, offset⟩
    by_cases working : Busy c (topic, groupId, offset)
    · rw [kept.busy _ working]
      exact Nat.zero_le _
    · cases place : (c.world.streams topic)[offset]? with
      | none =>
        rw [sound.beyond topic groupId offset place]
        exact Nat.zero_le _
      | some message =>
        by_cases known : message.messageId ∈ c.world.dedup (dedupKey topic groupId)
        · exact (kept.added topic groupId offset message place known working).le
        · rw [sound.unadded topic groupId offset message place known]
          exact Nat.zero_le _
  · intro topic groupId messages member offset inside free
    obtain ⟨⟨rest, read⟩, known⟩ := sound.completed topic groupId messages member
    have place : (c.world.streams topic)[offset]? = some messages[offset] := by
      rw [← read, List.getElem?_append_left inside, List.getElem?_eq_getElem inside]
    exact kept.added topic groupId offset _ place (known _ (List.getElem_mem inside)) free

/-- When ids are fresh and no task dies with a message in hand, a group handles nothing
twice, and after a replay each message it read once. -/
theorem careful_delivered (reached : (system P).ReachableWhen (fun c a => careful c a = true) c) :
    Delivered c := by
  apply Kept.delivered
  apply reached.invariant
  · rintro s ⟨⟨pid, world⟩, live⟩
    obtain ⟨w, l⟩ := s
    cases world
    cases live
    exact boot_kept pid
  · exact fun kept allowed stepped => careful_preserves kept allowed stepped

def cold (pid : Nat) : Config (World String) (Task String) := ⟨boot fun _ => pid, fun _ => none⟩

/-- Two messages of one process, the first one handled live, then a replay. -/
theorem replayed_delivered : ∃ c : Config (World String) (Task String),
    (system String).ReachableWhen (fun c a => careful c a = true) c ∧ Delivered c ∧
      c.world.handled = [("t", "g", 1), ("t", "g", 0)] := by
  have reached := Transition.System.reachableWhen_of_run (system String) (cold 7)
    [.start 0 (.publish 0 "t" "a"), .resume 0 (), .start 0 (.createIdempotentConsumer "t" "g"),
      .start 0 (.deliver "t" "g" 0), .resume 0 (), .resume 0 (), .start 0 (.publish 0 "t" "b"), .resume 0 (),
      .start 0 (.replayStream "t" "g"), .resume 0 (), .resume 0 (), .resume 0 (), .resume 0 ()]
    ⟨⟨_, rfl⟩, rfl⟩ (Transition.System.guarded_of_guardedBy careful (fun _ _ => id) rfl) rfl
  exact ⟨_, reached, careful_delivered reached, rfl⟩

/-- Two containers with the same pid publish to one topic: the second message has the
id of the first. -/
theorem samePid_undelivered :
    ¬ ∀ c : Config (World String) (Task String), (system String).Reachable c → Delivered c := by
  intro claimed
  let labels : List (Act (Request String) Unit Restart) :=
    [.start 0 (.publish 0 "t" "a"), .resume 0 (), .start 0 (.publish 1 "t" "b"), .resume 0 (),
      .start 0 (.replayStream "t" "g"), .resume 0 (), .resume 0 (), .resume 0 (), .resume 0 ()]
  obtain ⟨c, executed, handled, completed, ended⟩ : ∃ c, (system String).run (cold 1) labels = some c ∧
      c.world.handled = [("t", "g", 0)] ∧
      c.world.completed = [("t", "g", [⟨"t:1:1", "a"⟩, ⟨"t:1:1", "b"⟩])] ∧ c.live 0 = none :=
    ⟨_, rfl, rfl, rfl, rfl⟩
  have reached := Transition.System.reachable_of_run (system String) (cold 1) labels ⟨⟨_, rfl⟩, rfl⟩ executed
  have free : ¬ Busy c ("t", "g", 1) := by
    rintro ⟨k, task, live, -⟩
    have idle : c.live k = none := by
      cases k with
      | zero => exact ended
      | succ k => exact Program.idle_run 1 rfl (fun _ _ => rfl) executed (k + 1) (by omega)
    exact nomatch idle.symm.trans live
  have missed := (claimed c reached).every "t" "g" _ (by rw [completed]; exact List.mem_singleton_self _) 1
    (by decide) free
  rw [handled] at missed
  contradiction

end Octraban.EventBus
