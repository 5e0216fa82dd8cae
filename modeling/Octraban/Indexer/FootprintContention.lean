import Octraban.Core.OrderedMap
import Octraban.Core.Upsert

/-! footprintContentionScanner.js: transactions that write a storage slot which the transaction
before them in the ledger writes too. index.js runs the scan on each page of a ledger's events. -/
namespace Octraban.FootprintContention
open Ordered

inductive LedgerKey (Address ScVal : Type) where
  | contractData (contract : Address) (key : ScVal) (persistent : Bool)
  | contractCode (hash : String)
  | account (accountId : String)
  | trustline (accountId : String)
  | other (kind : String)

structure Footprint (Address ScVal : Type) where
  readOnly : List (LedgerKey Address ScVal)
  readWrite : List (LedgerKey Address ScVal)

/-- What the parser takes from the SDK; `none` where the SDK throws. -/
structure Sdk (Address ScVal : Type) where
  fromXDR : String → Option (Footprint Address ScVal)
  encodeContract : Address → Option String
  switchName : ScVal → String
  /-- `String(scValToNative(value))` -/
  native : ScVal → Option String

structure Descriptor where
  type : String
  contractId : Option String
  wasmHash : Option String
  dataKey : Option String
  accountId : Option String
  durability : Option String

/-- The footprint comes with the envelope or on its own. -/
structure Event where
  txHash : Option String
  tx_hash : Option String
  envelopeFootprint : Option String
  footprintXdr : Option String

variable {Address ScVal : Type} (sdk : Sdk Address ScVal)

def classifyKey : LedgerKey Address ScVal → Option Descriptor
  | .contractData contract key persistent => do
    let contractId ← sdk.encodeContract contract
    let durability := if persistent then "persistent" else "temporary"
    if sdk.switchName key = "scvLedgerKeyContractInstance" then
      return ⟨"contractInstance", contractId, none, none, none, durability⟩
    return ⟨"contractData", contractId, none, (sdk.native key).getD (sdk.switchName key), none, durability⟩
  | .contractCode hash => some ⟨"contractCode", none, hash, none, none, none⟩
  | .account accountId => some ⟨"account", none, none, none, accountId, none⟩
  | .trustline accountId => some ⟨"trustline", none, none, none, accountId, none⟩
  | .other kind => some ⟨kind, none, none, none, none, none⟩

/-- The keys read and the keys written. -/
def parseFootprint (footprintXdr : String) : Option (List Descriptor × List Descriptor) := do
  let fp ← sdk.fromXDR footprintXdr
  let reads ← fp.readOnly.mapM (classifyKey sdk)
  let writes ← fp.readWrite.mapM (classifyKey sdk)
  return (reads, writes)

def keyToString (key : Descriptor) : String :=
  if key.type = "contractData" ∨ key.type = "contractInstance" then
    key.type ++ ":" ++ key.contractId.getD "undefined" ++ ":" ++ key.dataKey.getD "" ++ ":" ++ key.durability.getD ""
  else if key.type = "contractCode" then "contractCode:" ++ key.wasmHash.getD "undefined"
  else key.type ++ ":" ++ key.contractId.getD "" ++ ":" ++ key.accountId.getD ""

def writeKeysOf (ev : Event) : List String :=
  match ev.envelopeFootprint <|> ev.footprintXdr with
  | none | some "" => []
  | some footprintXdr => ((parseFootprint sdk footprintXdr).map fun keys => ofList (keys.2.map keyToString)).getD []

def Event.hash (ev : Event) : String := (ev.txHash <|> ev.tx_hash).getD ""

def setsIntersect (a b : List String) : Bool :=
  if a.length = 0 ∨ b.length = 0 then false
  else
    let (small, large) := if a.length ≤ b.length then (a, b) else (b, a)
    small.any (· ∈ large)

/-- The events of a transaction by their places in the list. -/
structure Groups where
  txOrder : List String
  txWriteKeys : OrderedMap String (List String)
  txEvents : OrderedMap String (List Nat)

/-- One turn of the first loop. -/
def Groups.enter (groups : Groups) (ev : Event) (place : Nat) : Groups :=
  let groups : Groups :=
    if (groups.txWriteKeys.get ev.hash).isSome then groups
    else ⟨groups.txOrder ++ [ev.hash], groups.txWriteKeys.set ev.hash (writeKeysOf sdk ev),
      groups.txEvents.set ev.hash []⟩
  { groups with txEvents := groups.txEvents.update ev.hash [] (· ++ [place]) }

def group (events : List Event) : Groups :=
  events.zipIdx.foldl (fun groups ev => groups.enter sdk ev.1 ev.2) ⟨[], .empty, .empty⟩

def Groups.writeKeys (groups : Groups) (i : Nat) : List String :=
  ((groups.txOrder[i]?).bind groups.txWriteKeys.get).getD []

def Groups.contention (groups : Groups) (i : Nat) : Bool :=
  0 < i && setsIntersect (groups.writeKeys i) (groups.writeKeys (i - 1))

/-- One turn of the second loop: the events of the transaction are marked. -/
def Groups.mark (groups : Groups) (marks : Nat → Option Bool) (tx : String × Nat) : Nat → Option Bool := fun place =>
  if place ∈ (groups.txEvents.get tx.1).getD [] then some (groups.contention tx.2) else marks place

/-- The `footprint_contention` of each event after the scan. -/
def scanFootprintContention (events : List Event) : List (Option Bool) :=
  let groups := group sdk events
  (List.range events.length).map (groups.txOrder.zipIdx.foldl groups.mark fun _ => none)

/-! ### Contention in a list of events -/

/-- The transactions of some events in the order of their first events. -/
def transactions (events : List Event) : List String := ofList (events.map Event.hash)

/-- The transaction immediately before another. -/
def predecessor (order : List String) (hash : String) : Option String :=
  if order.idxOf hash = 0 then none else order[order.idxOf hash - 1]?

/-- The write keys of a transaction, as its first event has them. -/
def keysIn (events : List Event) (hash : String) : List String :=
  ((events.find? fun ev => ev.hash = hash).map (writeKeysOf sdk)).getD []

/-- A transaction's write keys intersect those of the transaction immediately before it. -/
def contends (events : List Event) (hash : String) : Bool :=
  (predecessor (transactions events) hash).any fun prior => setsIntersect (keysIn sdk events hash) (keysIn sdk events prior)

variable {sdk} {events : List Event} {ev : Event} {hash : String} {i : Nat}

theorem group_append : group sdk (events ++ [ev]) = (group sdk events).enter sdk ev events.length := by
  simp only [group, List.zipIdx_append, List.foldl_append, List.zipIdx_singleton, List.foldl_cons, List.foldl_nil,
    Nat.zero_add]

theorem transactions_append : transactions (events ++ [ev]) = add (transactions events) ev.hash := by
  simp only [transactions, ofList, List.map_append, List.foldl_append, List.map_cons, List.map_nil,
    List.foldl_cons, List.foldl_nil]

theorem mem_transactions : hash ∈ transactions events ↔ ∃ ev ∈ events, ev.hash = hash := by
  simp only [transactions, mem_ofList, List.mem_map]

theorem nodup_transactions : (transactions events).Nodup := nodup_ofList

/-- What the first loop has built from some events. -/
structure Groups.Of (sdk : Sdk Address ScVal) (events : List Event) (groups : Groups) : Prop where
  order : groups.txOrder = transactions events
  keys : ∀ hash, groups.txWriteKeys.get hash = (events.find? fun ev => ev.hash = hash).map (writeKeysOf sdk)
  places : ∀ hash i, i ∈ (groups.txEvents.get hash).getD [] ↔ ∃ ev, events[i]? = some ev ∧ ev.hash = hash

theorem Groups.Of.known {groups : Groups} (built : groups.Of sdk events) (hash : String) :
    (groups.txWriteKeys.get hash).isSome ↔ hash ∈ transactions events := by
  rw [built.keys, Option.isSome_map, List.find?_isSome, mem_transactions]
  simp only [decide_eq_true_eq]

theorem getElem_concat (hash : String) (i : Nat) :
    (∃ found, (events ++ [ev])[i]? = some found ∧ found.hash = hash) ↔
      (∃ found, events[i]? = some found ∧ found.hash = hash) ∨ (ev.hash = hash ∧ i = events.length) := by
  obtain before | rfl | after := lt_trichotomy i events.length
  · rw [List.getElem?_append_left before]
    exact ⟨.inl, fun either => either.elim id fun ⟨_, last⟩ => absurd last before.ne⟩
  · rw [List.getElem?_concat_length, List.getElem?_eq_none le_rfl]
    simp
  · rw [List.getElem?_eq_none (by simp; omega), List.getElem?_eq_none after.le]
    simp [after.ne']

/-- A new transaction starts without events, as an unknown one has none. -/
theorem Groups.Of.opened {groups : Groups} (built : groups.Of sdk events) (unknown : ev.hash ∉ transactions events) :
    ((groups.txEvents.set ev.hash []).get hash).getD [] = (groups.txEvents.get hash).getD [] := by
  by_cases same : hash = ev.hash
  · subst same
    rw [OrderedMap.get_set_self, Option.getD_some, eq_comm, List.eq_nil_iff_forall_not_mem]
    intro i listed
    obtain ⟨found, present, named⟩ := (built.places ev.hash i).mp listed
    exact unknown (mem_transactions.mpr ⟨found, List.mem_of_getElem? present, named⟩)
  · rw [OrderedMap.get_set_ne same]

theorem Groups.Of.enter {groups : Groups} (built : groups.Of sdk events) :
    (groups.enter sdk ev events.length).Of sdk (events ++ [ev]) := by
  have listed (txEvents : OrderedMap String (List Nat))
      (same : ∀ hash, (txEvents.get hash).getD [] = (groups.txEvents.get hash).getD []) (hash : String) (i : Nat) :
      i ∈ (((txEvents.update ev.hash [] (· ++ [events.length])).get hash).getD []) ↔
        ∃ found, (events ++ [ev])[i]? = some found ∧ found.hash = hash := by
    rw [getElem_concat, ← built.places, OrderedMap.getD_update, same]
    split
    · rename_i named
      simp [named]
    · rename_i other
      simp [Ne.symm other]
  by_cases known : ev.hash ∈ transactions events
  · have enters : groups.enter sdk ev events.length =
        { groups with txEvents := groups.txEvents.update ev.hash [] (· ++ [events.length]) } := by
      simp only [Groups.enter, (built.known ev.hash).mpr known, if_true]
    rw [enters]
    refine ⟨?_, fun hash => ?_, listed _ fun _ => rfl⟩
    · rw [transactions_append, add, if_pos known]
      exact built.order
    · change groups.txWriteKeys.get hash = _
      rw [built.keys, List.find?_append]
      cases found : events.find? fun ev => ev.hash = hash with
      | some first => rfl
      | none =>
        have absent : ev.hash ≠ hash := by
          intro same
          obtain ⟨first, member, named⟩ := mem_transactions.mp (same ▸ known)
          exact List.find?_eq_none.mp found first member (by simpa using named)
        simp [absent]
  · have enters : groups.enter sdk ev events.length =
        ⟨groups.txOrder ++ [ev.hash], groups.txWriteKeys.set ev.hash (writeKeysOf sdk ev),
          (groups.txEvents.set ev.hash []).update ev.hash [] (· ++ [events.length])⟩ := by
      simp only [Groups.enter, if_neg fun isKnown => known ((built.known ev.hash).mp isKnown)]
    rw [enters]
    refine ⟨?_, fun hash => ?_, listed _ fun _ => built.opened known⟩
    · rw [transactions_append, add, if_neg known, ← built.order]
    · by_cases same : hash = ev.hash
      · subst same
        have absent : (events.find? fun found => found.hash = ev.hash) = none :=
          List.find?_eq_none.mpr fun first member named =>
            known (mem_transactions.mpr ⟨first, member, by simpa using named⟩)
        rw [OrderedMap.get_set_self, List.find?_append, absent]
        simp
      · rw [OrderedMap.get_set_ne same, built.keys, List.find?_append]
        simp [Ne.symm same]

theorem group_of (events : List Event) : (group sdk events).Of sdk events := by
  induction events using List.reverseRecOn with
  | nil => exact ⟨rfl, fun _ => rfl, fun _ _ => by simp [group, OrderedMap.get, OrderedMap.find, OrderedMap.empty]⟩
  | append_singleton events ev ih =>
    rw [group_append]
    exact ih.enter

theorem Groups.Of.writeKeys {groups : Groups} (built : groups.Of sdk events)
    (placed : (transactions events)[i]? = some hash) : groups.writeKeys i = keysIn sdk events hash := by
  simp only [Groups.writeKeys, built.order, placed, Option.bind_some, built.keys, keysIn]

theorem Groups.Of.contention {groups : Groups} (built : groups.Of sdk events) (present : hash ∈ transactions events) :
    groups.contention ((transactions events).idxOf hash) = contends sdk events hash := by
  have own : (transactions events)[(transactions events).idxOf hash]? = some hash := List.getElem?_idxOf present
  simp only [Groups.contention, contends, predecessor, built.writeKeys own]
  split
  · rename_i first
    rw [first]
    rfl
  · rename_i later
    have place := List.idxOf_lt_length_of_mem present
    have prior := List.getElem?_eq_getElem (l := transactions events) (i := (transactions events).idxOf hash - 1) (by omega)
    rw [built.writeKeys prior, prior, Option.any_some, decide_eq_true (Nat.pos_of_ne_zero later), Bool.true_and]

theorem filterMap_zipIdx {order : List String} {flag : Nat → Bool} (nodup : order.Nodup) (present : hash ∈ order)
    (start : Nat) : ((order.zipIdx start).filterMap fun tx => if tx.1 = hash then some (flag tx.2) else none) =
      [flag (start + order.idxOf hash)] := by
  induction order generalizing start with
  | nil => cases present
  | cons first order ih =>
    obtain ⟨fresh, rest⟩ := List.nodup_cons.mp nodup
    rw [List.zipIdx_cons]
    by_cases same : first = hash
    · subst same
      have none : ((order.zipIdx (start + 1)).filterMap fun tx => if tx.1 = first then some (flag tx.2) else none) = [] := by
        refine List.filterMap_eq_nil_iff.mpr fun tx member => if_neg fun named => ?_
        exact fresh (named ▸ List.fst_mem_of_mem_zipIdx member)
      rw [List.filterMap_cons, if_pos rfl, none, List.idxOf_cons_self]
      rfl
    · have later : hash ∈ order := (List.mem_cons.mp present).resolve_left (Ne.symm same)
      have place : start + 1 + order.idxOf hash = start + (order.idxOf hash + 1) := by omega
      rw [List.filterMap_cons, if_neg same, List.idxOf_cons_ne _ same, ← place]
      exact ih rest later (start + 1)

/-- Each event is marked once, with its transaction. -/
theorem Groups.Of.marks {groups : Groups} (built : groups.Of sdk events) (found : events[i]? = some ev) :
    groups.txOrder.zipIdx.foldl groups.mark (fun _ => none) i = some (contends sdk events ev.hash) := by
  have present : ev.hash ∈ transactions events := mem_transactions.mpr ⟨ev, List.mem_of_getElem? found, rfl⟩
  have marked (hash : String) : i ∈ (groups.txEvents.get hash).getD [] ↔ hash = ev.hash := by
    rw [built.places, found]
    simp [eq_comm]
  have step (marks : Nat → Option Bool) (tx : String × Nat) : groups.mark marks tx i =
      (if tx.1 = ev.hash then some (groups.contention tx.2) else none).elim (marks i) fun flag => some flag := by
    simp only [Groups.mark, marked]
    split <;> rfl
  rw [Sql.read_foldl_lastWrite (fun marks : Nat → Option Bool => marks i) (fun flag _ => some flag) step
    (fun _ _ _ => rfl), built.order, filterMap_zipIdx nodup_transactions present 0, List.getLast?_singleton,
    Nat.zero_add, built.contention present]
  rfl

theorem scan_eq (sdk : Sdk Address ScVal) (events : List Event) :
    scanFootprintContention sdk events = events.map fun ev => some (contends sdk events ev.hash) := by
  refine List.ext_getElem? fun i => ?_
  simp only [scanFootprintContention, List.getElem?_map]
  cases found : events[i]? with
  | none =>
    rw [List.getElem?_eq_none (by simpa using found)]
    rfl
  | some ev =>
    rw [List.getElem?_range (List.getElem?_eq_some_iff.mp found).1, Option.map_some, (group_of events).marks found]
    rfl

/-! ### A ledger cut into pages -/

/-- Page by page the events get the flags that one scan of the ledger gives them, and these say
whether the write keys of a transaction intersect those of the transaction before it. -/
def Unpaged (sdk : Sdk Address ScVal) (pages : List (List Event)) : Prop :=
  pages.flatMap (scanFootprintContention sdk) = scanFootprintContention sdk pages.flatten ∧
    scanFootprintContention sdk pages.flatten =
      pages.flatten.map fun ev => some (contends sdk pages.flatten ev.hash)

/-- What the flag of a transaction rests on: its write keys, and those of the transaction before it. -/
def footing (sdk : Sdk Address ScVal) (events : List Event) (hash : String) : List String × Option (List String) :=
  (keysIn sdk events hash, (predecessor (transactions events) hash).map (keysIn sdk events))

/-- Transaction by transaction, and every event with the footprint of its transaction. -/
structure Grouped (sdk : Sdk Address ScVal) (events : List Event) : Prop where
  together : ∀ a b, a ≠ b → ¬ [a, b, a].Sublist (events.map Event.hash)
  agree : ∀ ev ∈ events, ∀ other ∈ events, ev.hash = other.hash → writeKeysOf sdk ev = writeKeysOf sdk other

theorem contends_of_footing {others : List Event} (same : footing sdk events hash = footing sdk others hash) :
    contends sdk events hash = contends sdk others hash := by
  have contends_eq (events : List Event) :
      contends sdk events hash = (footing sdk events hash).2.any (setsIntersect (footing sdk events hash).1) := by
    simp only [contends, footing, Option.any_map]
  rw [contends_eq, contends_eq, same]

theorem flatMap_eq_iff {α β : Type} {f g : α → List β} (length : ∀ x, (f x).length = (g x).length) {xs : List α} :
    xs.flatMap f = xs.flatMap g ↔ ∀ x ∈ xs, f x = g x := by
  induction xs with
  | nil => simp
  | cons x xs ih =>
    rw [List.flatMap_cons, List.flatMap_cons, List.forall_mem_cons, ← ih]
    exact ⟨fun same => List.append_inj same (length x), fun same => congrArg₂ (· ++ ·) same.1 same.2⟩

theorem unpaged_iff (pages : List (List Event)) :
    Unpaged sdk pages ↔ ∀ page ∈ pages, ∀ ev ∈ page, contends sdk page ev.hash = contends sdk pages.flatten ev.hash := by
  have whole := scan_eq sdk pages.flatten
  simp only [Unpaged, whole, and_true]
  rw [List.map_flatten, ← List.flatMap_def, flatMap_eq_iff (by simp [scan_eq])]
  refine forall₂_congr fun page _ => ?_
  rw [scan_eq, List.map_inj_left]
  exact forall₂_congr fun ev _ => Option.some_inj

theorem predecessor_split {before : List String} (after : List String) (fresh : hash ∉ before) :
    predecessor (ofList (before ++ hash :: after)) hash = (ofList before).getLast? := by
  obtain ⟨later, split⟩ := ofList_split after fresh
  have unmet : hash ∉ ofList before := fun member => fresh (mem_ofList.mp member)
  rw [split, predecessor, List.idxOf_append_of_notMem unmet, List.idxOf_cons_self, Nat.add_zero]
  split
  · rename_i empty
    rw [List.length_eq_zero_iff.mp empty]
    rfl
  · rename_i present
    rw [List.getElem?_append_left (by omega), List.getLast?_eq_getElem?]

theorem keysIn_of_mem (agree : ∀ ev ∈ events, ∀ other ∈ events, ev.hash = other.hash →
    writeKeysOf sdk ev = writeKeysOf sdk other) (member : ev ∈ events) : keysIn sdk events ev.hash = writeKeysOf sdk ev := by
  cases found : events.find? fun other => other.hash = ev.hash with
  | none => exact absurd (List.find?_eq_none.mp found ev member) (by simp)
  | some first =>
    rw [keysIn, found]
    exact agree first (List.mem_of_find?_eq_some found) ev member (by simpa using List.find?_some found)

theorem Grouped.page {before page rest : List Event} (grouped : Grouped sdk (before ++ page ++ rest)) :
    Grouped sdk page := by
  have within : page.Sublist (before ++ page ++ rest) :=
    (List.sublist_append_right before page).trans (List.sublist_append_left _ rest)
  refine ⟨fun a b different again => grouped.together a b different (again.trans (within.map _)), ?_⟩
  exact fun ev member other present => grouped.agree ev (within.mem member) other (within.mem present)

/-- A new transaction follows the one that the event before its first event belongs to. -/
theorem footing_eq {front back : List Event} {prior : Event} (grouped : Grouped sdk (front ++ prior :: ev :: back))
    (fresh : ev.hash ∉ (front ++ [prior]).map Event.hash) :
    footing sdk (front ++ prior :: ev :: back) ev.hash = (writeKeysOf sdk ev, some (writeKeysOf sdk prior)) := by
  have last : (ofList ((front ++ [prior]).map Event.hash)).getLast? = some prior.hash := by
    rw [getLast_ofList, List.map_append, List.map_singleton, List.getLast?_concat]
    intro a b different again
    refine grouped.together a b different (again.trans (List.Sublist.map _ ?_))
    exact (List.Sublist.refl front).append (List.singleton_sublist.mpr List.mem_cons_self)
  have follows : predecessor (transactions (front ++ prior :: ev :: back)) ev.hash = some prior.hash := by
    rw [← last, ← predecessor_split (back.map Event.hash) fresh]
    simp only [transactions, List.map_append, List.map_cons, List.append_assoc, List.map_nil, List.cons_append,
      List.nil_append]
  rw [footing, follows, Option.map_some, keysIn_of_mem grouped.agree (by simp), keysIn_of_mem grouped.agree (by simp)]

/-- So it rests on the same write keys in the ledger as on a page that it does not start. -/
theorem footing_of_grouped {before front back rest : List Event} {prior : Event}
    (grouped : Grouped sdk (before ++ (front ++ prior :: ev :: back) ++ rest))
    (fresh : ev.hash ∉ (front ++ [prior]).map Event.hash) :
    footing sdk (front ++ prior :: ev :: back) ev.hash =
      footing sdk (before ++ (front ++ prior :: ev :: back) ++ rest) ev.hash := by
  have ledger : before ++ (front ++ prior :: ev :: back) ++ rest = (before ++ front) ++ prior :: ev :: (back ++ rest) := by
    simp only [List.append_assoc, List.cons_append]
  have unmet : ev.hash ∉ before.map Event.hash := by
    intro member
    have other : ev.hash ≠ prior.hash := fun same => fresh (by simp [same])
    refine grouped.together ev.hash prior.hash other ?_
    rw [ledger, List.map_append, List.map_append, List.append_assoc, List.map_cons, List.map_cons]
    refine (List.singleton_sublist.mpr member).append (List.Sublist.trans ?_ (List.sublist_append_right _ _))
    exact ((List.nil_sublist _).cons_cons _).cons_cons _
  rw [footing_eq grouped.page fresh]
  rw [ledger] at grouped ⊢
  refine (footing_eq grouped ?_).symm
  rw [List.append_assoc, List.map_append, List.mem_append]
  exact fun either => either.elim unmet fresh

/-- The first event of a transaction. -/
theorem exists_first (member : ev ∈ events) : ∃ front first back, events = front ++ first :: back ∧
    first.hash = ev.hash ∧ first.hash ∉ front.map Event.hash := by
  have some : (events.find? fun other => other.hash = ev.hash).isSome :=
    List.find?_isSome.mpr ⟨ev, member, decide_eq_true rfl⟩
  obtain ⟨first, found⟩ := Option.isSome_iff_exists.mp some
  obtain ⟨same, front, back, split, earlier⟩ := List.find?_eq_some_iff_append.mp found
  have named : first.hash = ev.hash := of_decide_eq_true same
  refine ⟨front, first, back, split, named, fun again => ?_⟩
  obtain ⟨other, before, equal⟩ := List.mem_map.mp again
  simpa [equal.trans named] using earlier other before

theorem contends_first : contends sdk (ev :: events) ev.hash = false := by
  have none : predecessor (transactions (ev :: events)) ev.hash = none :=
    predecessor_split (events.map Event.hash) List.not_mem_nil
  rw [contends, none]
  rfl

/-- The flags do not depend on the pages exactly if each transaction of a page, where there it rests
on other write keys than in the ledger, contends on the page as it does in the ledger. Where a
ledger's events come transaction by transaction, exactly if no page starts with a transaction that
contends with the one before it. -/
theorem contention_unpaged_iff (pages : List (List Event)) :
    (Unpaged sdk pages ↔ ∀ page ∈ pages, ∀ ev ∈ page,
      footing sdk page ev.hash ≠ footing sdk pages.flatten ev.hash →
        contends sdk page ev.hash = contends sdk pages.flatten ev.hash) ∧
    (Grouped sdk pages.flatten → (Unpaged sdk pages ↔ ∀ page ∈ pages, ∀ ev ∈ page.head?,
      contends sdk pages.flatten ev.hash = false)) := by
  rw [unpaged_iff]
  constructor
  · refine forall₂_congr fun page _ => forall₂_congr fun ev _ => ?_
    exact ⟨fun same _ => same, fun same => by_contra fun different =>
      different (same fun rests => different (contends_of_footing rests))⟩
  · intro grouped
    refine forall₂_congr fun page present => ?_
    obtain ⟨earlier, later, rfl⟩ := List.append_of_mem present
    rw [List.flatten_append, List.flatten_cons, ← List.append_assoc] at grouped ⊢
    constructor
    · intro same ev starts
      obtain ⟨rest, rfl⟩ := List.head?_eq_some_iff.mp starts
      rw [← same ev List.mem_cons_self, contends_first]
    · intro starts ev member
      obtain ⟨front, first, back, rfl, named, fresh⟩ := exists_first member
      rw [← named]
      obtain rfl | ⟨front, prior, rfl⟩ := List.eq_nil_or_concat' front
      · rw [List.nil_append, contends_first, ← starts first rfl]
        rfl
      · have page : front ++ [prior] ++ first :: back = front ++ prior :: first :: back := List.append_assoc ..
        rw [page] at grouped ⊢
        exact contends_of_footing (footing_of_grouped grouped fresh)

/-- An SDK that reads the footprint of a transaction which writes one contract's code. -/
def codeWriter : Sdk String String where
  fromXDR footprintXdr :=
    if footprintXdr = "AAAAAAAAAAEAAAAHAAAAAAAAAAAAAAAAAAAAAAAAAAAAAAAAAAAAAAAAAAA=" then
      some ⟨[], [.contractCode "0000000000000000000000000000000000000000000000000000000000000000"]⟩
    else none
  encodeContract address := some address
  switchName _ := "scvVoid"
  native _ := none

def writing (tx : String) : Event :=
  ⟨some tx, none, none, some "AAAAAAAAAAEAAAAHAAAAAAAAAAAAAAAAAAAAAAAAAAAAAAAAAAAAAAAAAAA="⟩

def reading (tx : String) : Event := ⟨some tx, none, none, none⟩

theorem contention_unpaged_reader : Unpaged codeWriter [[writing "a"], [reading "b"]] := by
  have grouped : Grouped codeWriter [writing "a", reading "b"] := by
    refine ⟨fun a b _ again => absurd again.length_le (by simp), ?_⟩
    intro ev member other present same
    simp only [List.mem_cons, List.not_mem_nil, or_false] at member present
    obtain rfl | rfl := member <;> obtain rfl | rfl := present
    · rfl
    · exact absurd same (by decide)
    · exact absurd same (by decide)
    · rfl
  refine ((contention_unpaged_iff [[writing "a"], [reading "b"]]).2 grouped).mpr ?_
  decide

/-- Two transactions in a row write the same code, the second on the next page. -/
theorem contention_unpaged_writers :
    ([[writing "a"], [writing "b"]].flatMap (scanFootprintContention codeWriter)) = [some false, some false] ∧
      scanFootprintContention codeWriter [writing "a", writing "b"] = [some false, some true] ∧
      ¬ Unpaged codeWriter [[writing "a"], [writing "b"]] := by
  have paged : [[writing "a"], [writing "b"]].flatMap (scanFootprintContention codeWriter) = [some false, some false] := by
    decide
  have whole : scanFootprintContention codeWriter [writing "a", writing "b"] = [some false, some true] := by decide
  refine ⟨paged, whole, fun unpaged => ?_⟩
  have same := paged.symm.trans (unpaged.1.trans whole)
  revert same
  decide

end Octraban.FootprintContention
