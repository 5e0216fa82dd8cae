import Octraban.Archive.Archiver
import Octraban.Core.JavaScript
import Octraban.Core.OrderedMap
import Octraban.Core.Upsert

/-! liquidity.ts: the volumes of the current day, week and month by protocol, chain and asset. -/
namespace Octraban.BridgeVolumes
open JavaScript

structure BridgeTransaction where
  protocol : String
  sourceChain : String
  asset : String
  amount : ℚ
  status : String
  createdAt : Int

structure VolumeKey where
  protocol : String
  chain : String
  asset : String
  period : String
  periodStart : Int
  deriving DecidableEq

structure Volume where
  volume : ℚ
  count : Nat
  deriving DecidableEq

def msPerDay : Int := 86400000

/-- Local times of instants and instants of local times; a later day starts later. -/
structure Zone where
  localTime : Int → Int
  utc : Int → Int
  ordered : ∀ d e, d ≤ e → utc (d * msPerDay) ≤ utc (e * msPerDay)

def dayOf (time : Int) : Int := time / msPerDay

/-- `getDay()`: days since a Sunday. -/
def weekDay (day : Int) : Int := (day + 4) % 7

/-- `getDate()` -/
def dateOf (day : Int) : Nat := (Archiver.civil (day * msPerDay)).2.2

section
variable (zone : Zone) (now : Int)

/-- `new Date(now.getFullYear(), now.getMonth(), now.getDate())` -/
def today : Int := zone.utc (dayOf (zone.localTime now) * msPerDay)

/-- `weekStart.setDate(weekStart.getDate() - weekStart.getDay())` of the start of the day, at its time of day. -/
def weekStart : Int :=
  let time := zone.localTime (today zone now)
  zone.utc ((dayOf time - weekDay (dayOf time)) * msPerDay + time % msPerDay)

/-- `new Date(now.getFullYear(), now.getMonth(), 1)` -/
def monthStart : Int :=
  let day := dayOf (zone.localTime now)
  zone.utc ((day - (dateOf day - 1)) * msPerDay)

def periods : List (String × Int) := [("daily", today zone now), ("weekly", weekStart zone now), ("monthly", monthStart zone now)]

end

/-! ### Keys -/

abbrev Lane := String × String × String

def BridgeTransaction.lane (tx : BridgeTransaction) : Lane := (tx.protocol, tx.sourceChain, tx.asset)

def Lane.key (lane : Lane) : String := lane.1 ++ ":" ++ lane.2.1 ++ ":" ++ lane.2.2

/-- `const [protocol, chain, asset] = key.split(':')`; a key has two colons. -/
def pieces (key : String) : Lane :=
  let parts := split key ':'
  (parts.getD 0 "", parts.getD 1 "", parts.getD 2 "")

/-- No colon in its names. -/
def Lane.Plain (lane : Lane) : Prop := ':' ∉ lane.1.toList ∧ ':' ∉ lane.2.1.toList ∧ ':' ∉ lane.2.2.toList

theorem not_mem_of_mem_splitOn {separator : Char} {text part : List Char} (member : part ∈ text.splitOn separator) :
    separator ∉ part := by
  induction text generalizing part with
  | nil =>
    rw [List.splitOn_eq_singleton List.not_mem_nil] at member
    rw [List.mem_singleton.mp member]
    exact List.not_mem_nil
  | cons c text ih =>
    rw [List.splitOn_cons_eq_if_modifyHead] at member
    split at member
    · rcases List.mem_cons.mp member with rfl | later
      · exact List.not_mem_nil
      · exact ih later
    · rename_i other
      cases parts : text.splitOn separator with
      | nil => exact absurd parts (List.splitOn_ne_nil separator text)
      | cons first rest =>
        rw [parts] at member ih
        rcases List.mem_cons.mp member with rfl | later
        · refine List.not_mem_cons_of_ne_of_not_mem (fun same => ?_) (ih List.mem_cons_self)
          exact other (beq_iff_eq.mpr same.symm)
        · exact ih (List.mem_cons_of_mem _ later)

theorem plain_pieces (key : String) : (pieces key).Plain := by
  have part (n : Nat) : ':' ∉ ((split key ':').getD n "").toList := by
    rw [List.getD_eq_getElem?_getD]
    cases found : (split key ':')[n]? with
    | none => exact List.not_mem_nil
    | some text =>
      obtain ⟨characters, member, rfl⟩ := List.mem_map.mp (List.mem_of_getElem? found)
      rw [Option.getD_some, String.toList_ofList]
      exact not_mem_of_mem_splitOn member
  exact ⟨part 0, part 1, part 2⟩

theorem pieces_key {lane : Lane} (plain : lane.Plain) : pieces lane.key = lane := by
  obtain ⟨protocol, chain, asset⟩ := plain
  have joined : lane.key.toList = lane.1.toList ++ ':' :: (lane.2.1.toList ++ ':' :: lane.2.2.toList) := by
    rw [Lane.key]
    simp
  have parts : split lane.key ':' = [lane.1, lane.2.1, lane.2.2] := by
    rw [split, joined, List.splitOn_append_cons_self_of_not_mem protocol, List.splitOn_append_cons_self_of_not_mem chain,
      List.splitOn_eq_singleton asset]
    simp only [List.map_cons, List.map_nil, String.ofList_toList]
  rw [pieces, parts]
  rfl

theorem key_inj {a b : Lane} (left : a.Plain) (right : b.Plain) (same : a.key = b.key) : a = b := by
  rw [← pieces_key left, same, pieces_key right]

/-! ### The snapshot -/

/-- Only the snapshot writes the rows, with names from the pieces of a key. -/
structure Volumes where
  table : Sql.Table VolumeKey Volume
  plain : ∀ key ∈ table, Lane.Plain (key.protocol, key.chain, key.asset)

def laneKey (lane : Lane) (period : String × Int) : VolumeKey where
  protocol := lane.1
  chain := lane.2.1
  asset := lane.2.2
  period := period.1
  periodStart := period.2

/-- One upsert of a period. -/
def write (period : String × Int) (volumes : Volumes) (entry : String × Volume) : Volumes where
  table := volumes.table.upsert (laneKey (pieces entry.1) period) entry.2 fun _ => entry.2
  plain key member := by
    rcases AList.mem_insert _ |>.mp member with rfl | old
    · exact plain_pieces entry.1
    · exact volumes.plain key old

def aggregate (filtered : List BridgeTransaction) : OrderedMap String Volume :=
  filtered.foldl
    (fun m tx => m.update tx.lane.key ⟨0, 0⟩ fun existing => ⟨existing.volume + tx.amount, existing.count + 1⟩) OrderedMap.empty

def writePeriod (completions : List BridgeTransaction) (volumes : Volumes) (period : String × Int) : Volumes :=
  (aggregate (completions.filter fun tx => period.2 ≤ tx.createdAt)).entries.foldl (write period) volumes

def fetched (zone : Zone) (now : Int) (txs : List BridgeTransaction) : List BridgeTransaction :=
  txs.filter fun tx => tx.status = "completed" ∧ monthStart zone now ≤ tx.createdAt

def aggregateVolumeSnapshot (zone : Zone) (now : Int) (txs : List BridgeTransaction) (volumes : Volumes) : Volumes :=
  (periods zone now).foldl (writePeriod (fetched zone now txs)) volumes

/-! ### What a period counts -/

/-- The completed transfers of a lane since a start. -/
def transfers (txs : List BridgeTransaction) (lane : Lane) (start : Int) : List BridgeTransaction :=
  txs.filter fun tx => tx.status = "completed" ∧ tx.lane = lane ∧ start ≤ tx.createdAt

def total (txs : List BridgeTransaction) : Volume := ⟨(txs.map BridgeTransaction.amount).sum, txs.length⟩

/-- Every lane with a transfer since the start of a period has its row. -/
def Complete (zone : Zone) (now : Int) (txs : List BridgeTransaction) (volumes : Volumes) : Prop :=
  ∀ period ∈ periods zone now, ∀ tx ∈ txs, tx.status = "completed" → period.2 ≤ tx.createdAt →
    volumes.table.lookup (laneKey tx.lane period) = some (total (transfers txs tx.lane period.2))

/-- No name of a transfer since the start of the week or the month has a colon. -/
def PlainNames (zone : Zone) (now : Int) (txs : List BridgeTransaction) : Prop :=
  ∀ tx ∈ txs, tx.status = "completed" → weekStart zone now ≤ tx.createdAt ∨ monthStart zone now ≤ tx.createdAt → tx.lane.Plain

/-- No name has a colon, and a lane whose transfers of the week are not all of the month has none of
the month and its row already. -/
structure Kept (zone : Zone) (now : Int) (txs : List BridgeTransaction) (volumes : Volumes) : Prop where
  plain : PlainNames zone now txs
  week : ∀ tx ∈ txs, tx.status = "completed" → weekStart zone now ≤ tx.createdAt → tx.createdAt < monthStart zone now →
    transfers txs tx.lane (monthStart zone now) = [] ∧
      volumes.table.lookup (laneKey tx.lane ("weekly", weekStart zone now)) = some (total (transfers txs tx.lane (weekStart zone now)))

variable {zone : Zone} {now : Int} {txs completions : List BridgeTransaction} {volumes : Volumes} {lane : Lane} {period : String × Int}

theorem monthStart_le_today : monthStart zone now ≤ today zone now := by
  apply zone.ordered
  have first : 1 ≤ dateOf (dayOf (zone.localTime now)) := Nat.succ_le_succ (Nat.zero_le _)
  omega

/-- The group of a key. -/
theorem get_aggregate (filtered : List BridgeTransaction) (key : String) :
    (aggregate filtered).get key =
      if (filtered.filter fun tx => tx.lane.key = key) = [] then none
      else some (total (filtered.filter fun tx => tx.lane.key = key)) := by
  have summed (start : Volume) (chosen : List BridgeTransaction) :
      chosen.foldl (fun existing tx => ⟨existing.volume + tx.amount, existing.count + 1⟩) start =
        (⟨start.volume + (total chosen).volume, start.count + (total chosen).count⟩ : Volume) := by
    induction chosen generalizing start with
    | nil => simp [total]
    | cons tx rest ih =>
      rw [List.foldl_cons, ih]
      simp only [total, List.map_cons, List.sum_cons, List.length_cons, Volume.mk.injEq]
      exact ⟨add_assoc _ _ _, by omega⟩
  have content : ((aggregate filtered).get key).getD ⟨0, 0⟩ = total (filtered.filter fun tx => tx.lane.key = key) := by
    rw [aggregate, OrderedMap.getD_foldl_update, summed]
    simp [OrderedMap.empty, OrderedMap.get, OrderedMap.find]
  have present : ((aggregate filtered).get key).isSome ↔ (filtered.filter fun tx => tx.lane.key = key) ≠ [] := by
    rw [OrderedMap.isSome_get, aggregate, OrderedMap.keys_foldl_update, Ordered.mem_foldl_add]
    simp [OrderedMap.empty, OrderedMap.keys, List.filter_eq_nil_iff]
  cases stored : (aggregate filtered).get key with
  | none =>
    rw [stored] at present
    rw [if_pos (not_not.mp fun filled => Bool.false_ne_true (present.mpr filled))]
  | some row =>
    rw [stored] at present content
    rw [if_neg (present.mp rfl), ← content]
    rfl

theorem table_foldl_write (entries : List (String × Volume)) :
    (entries.foldl (write period) volumes).table =
      entries.foldl (fun t e => t.upsert (laneKey (pieces e.1) period) e.2 fun _ => e.2) volumes.table := by
  induction entries generalizing volumes with
  | nil => rfl
  | cons entry rest ih =>
    rw [List.foldl_cons, List.foldl_cons, ih]
    rfl

/-- A period leaves the rows of the others. -/
theorem lookup_writePeriod_ne {key : VolumeKey} (other : key.period ≠ period.1) :
    (writePeriod completions volumes period).table.lookup key = volumes.table.lookup key := by
  rw [writePeriod, table_foldl_write]
  apply Sql.Table.lookup_foldl_upsert_ne
  intro entry _ same
  exact other (congrArg VolumeKey.period same).symm

theorem laneKey_inj {a b : Lane} (same : laneKey a period = laneKey b period) : a = b := by
  obtain ⟨protocols, chains, assets, -, -⟩ := VolumeKey.mk.inj same
  exact Prod.ext protocols (Prod.ext chains assets)

/-- A period writes the row of each lane that it has, where no name has a colon. -/
theorem lookup_writePeriod (all : ∀ tx ∈ completions, tx.lane.Plain) (plain : lane.Plain) :
    (writePeriod completions volumes period).table.lookup (laneKey lane period) =
      if (completions.filter fun tx => tx.lane = lane ∧ period.2 ≤ tx.createdAt) = [] then
        volumes.table.lookup (laneKey lane period)
      else some (total (completions.filter fun tx => tx.lane = lane ∧ period.2 ≤ tx.createdAt)) := by
  set filtered := completions.filter fun tx => period.2 ≤ tx.createdAt with filtered_eq
  set found := completions.filter fun tx => tx.lane = lane ∧ period.2 ≤ tx.createdAt with found_eq
  have group : (filtered.filter fun tx => tx.lane.key = lane.key) = found := by
    rw [filtered_eq, found_eq, List.filter_filter]
    refine List.filter_congr fun tx member => ?_
    rw [← Bool.decide_and, decide_eq_decide]
    exact and_congr_left fun _ => ⟨key_inj (all tx member) plain, fun same => same ▸ rfl⟩
  have stored := get_aggregate filtered lane.key
  rw [group] at stored
  have entry_lane {entry : String × Volume} (member : entry ∈ (aggregate filtered).entries)
      (same : laneKey (pieces entry.1) period = laneKey lane period) : entry.1 = lane.key := by
    have row := OrderedMap.mem_entries.mp member
    rw [get_aggregate] at row
    split at row
    · cases row
    · rename_i filled
      obtain ⟨tx, inside⟩ := List.exists_mem_of_ne_nil _ filled
      obtain ⟨among, key⟩ := List.mem_filter.mp inside
      have key := of_decide_eq_true key
      have own := pieces_key (all tx (List.mem_filter.mp among).1)
      rw [← key, own] at same
      rw [← key, laneKey_inj same]
  rw [writePeriod, table_foldl_write]
  by_cases empty : found = []
  · rw [if_pos empty] at stored ⊢
    apply Sql.Table.lookup_foldl_upsert_ne
    intro entry member same
    have row := OrderedMap.mem_entries.mp member
    rw [entry_lane member same, stored] at row
    cases row
  · rw [if_neg empty] at stored ⊢
    have entry := OrderedMap.mem_entries.mpr stored
    have only : ∀ other ∈ (aggregate filtered).entries,
        laneKey (pieces other.1) period = laneKey (pieces (lane.key, total found).1) period → other = (lane.key, total found) := by
      intro other member same
      rw [pieces_key plain] at same
      have key := entry_lane member same
      have row := OrderedMap.mem_entries.mp member
      rw [key, stored] at row
      exact Prod.ext key (Option.some.inj row).symm
    have own : laneKey lane period = laneKey (pieces (lane.key, total found).1) period := by rw [pieces_key plain]
    rw [own]
    exact Sql.Table.lookup_foldl_upsert volumes.table entry only

/-- The row of a lane after the snapshot. -/
theorem lookup_snapshot (all : ∀ tx ∈ fetched zone now txs, tx.lane.Plain) (plain : lane.Plain) (member : period ∈ periods zone now) :
    (aggregateVolumeSnapshot zone now txs volumes).table.lookup (laneKey lane period) =
      if ((fetched zone now txs).filter fun tx => tx.lane = lane ∧ period.2 ≤ tx.createdAt) = [] then
        volumes.table.lookup (laneKey lane period)
      else some (total ((fetched zone now txs).filter fun tx => tx.lane = lane ∧ period.2 ≤ tx.createdAt)) := by
  simp only [periods, List.mem_cons, List.not_mem_nil, or_false] at member
  rw [aggregateVolumeSnapshot, periods, List.foldl_cons, List.foldl_cons, List.foldl_cons, List.foldl_nil]
  rcases member with rfl | rfl | rfl
  · rw [lookup_writePeriod_ne (show "daily" ≠ "monthly" by decide), lookup_writePeriod_ne (show "daily" ≠ "weekly" by decide),
      lookup_writePeriod all plain]
  · rw [lookup_writePeriod_ne (show "weekly" ≠ "monthly" by decide), lookup_writePeriod all plain,
      lookup_writePeriod_ne (show "weekly" ≠ "daily" by decide)]
  · rw [lookup_writePeriod all plain, lookup_writePeriod_ne (show "monthly" ≠ "weekly" by decide),
      lookup_writePeriod_ne (show "monthly" ≠ "daily" by decide)]

/-- What a period counts are the transfers since the start of the month. -/
theorem fetched_filter (lane : Lane) (start : Int) :
    ((fetched zone now txs).filter fun tx => tx.lane = lane ∧ start ≤ tx.createdAt) =
      (transfers txs lane start).filter fun tx => monthStart zone now ≤ tx.createdAt := by
  rw [fetched, transfers, List.filter_filter, List.filter_filter]
  refine List.filter_congr fun tx _ => ?_
  rw [← Bool.decide_and, ← Bool.decide_and, decide_eq_decide]
  tauto

/-- A period that the transfers of the month do not cover has its row only from before. -/
theorem row_iff (all : ∀ tx ∈ fetched zone now txs, tx.lane.Plain) (member : period ∈ periods zone now) {tx : BridgeTransaction}
    (plain : tx.lane.Plain) (listed : tx ∈ transfers txs tx.lane period.2) :
    (aggregateVolumeSnapshot zone now txs volumes).table.lookup (laneKey tx.lane period) =
        some (total (transfers txs tx.lane period.2)) ↔
      (∀ other ∈ transfers txs tx.lane period.2, monthStart zone now ≤ other.createdAt) ∨
        (transfers txs tx.lane period.2).filter (fun other => monthStart zone now ≤ other.createdAt) = [] ∧
          volumes.table.lookup (laneKey tx.lane period) = some (total (transfers txs tx.lane period.2)) := by
  rw [lookup_snapshot all plain member, fetched_filter]
  by_cases none_found : (transfers txs tx.lane period.2).filter (fun other => monthStart zone now ≤ other.createdAt) = []
  · rw [if_pos none_found]
    have missed : ¬ ∀ other ∈ transfers txs tx.lane period.2, monthStart zone now ≤ other.createdAt := by
      intro covered
      exact List.filter_eq_nil_iff.mp none_found tx listed (decide_eq_true (covered tx listed))
    exact ⟨fun stored => .inr ⟨none_found, stored⟩, fun either => (either.resolve_left missed).2⟩
  · rw [if_neg none_found]
    constructor
    · intro same
      have lengths := congrArg Volume.count (Option.some.inj same)
      have all_kept := List.length_filter_eq_length_iff.mp lengths
      exact .inl fun other inside => of_decide_eq_true (all_kept other inside)
    · rintro (covered | ⟨missing, -⟩)
      · rw [List.filter_eq_self.mpr fun other inside => decide_eq_true (covered other inside)]
      · exact absurd missing none_found

theorem mem_transfers {tx : BridgeTransaction} {start : Int} :
    tx ∈ transfers txs lane start ↔ tx ∈ txs ∧ tx.status = "completed" ∧ tx.lane = lane ∧ start ≤ tx.createdAt := by
  rw [transfers, List.mem_filter, decide_eq_true_eq]

theorem plain_fetched (plain : PlainNames zone now txs) : ∀ tx ∈ fetched zone now txs, tx.lane.Plain := by
  intro tx member
  obtain ⟨listed, fields⟩ := List.mem_filter.mp member
  obtain ⟨completed, recent⟩ := of_decide_eq_true fields
  exact plain tx listed completed (.inr recent)

/-- A row of a name with a colon is never written. -/
theorem plainNames_of_complete (complete : Complete zone now txs (aggregateVolumeSnapshot zone now txs volumes)) :
    PlainNames zone now txs := by
  intro tx listed completed recent
  have stored : ∃ period row, (aggregateVolumeSnapshot zone now txs volumes).table.lookup (laneKey tx.lane period) = some row := by
    rcases recent with week | month
    · exact ⟨_, _, complete ("weekly", weekStart zone now) (by simp [periods]) tx listed completed week⟩
    · exact ⟨_, _, complete ("monthly", monthStart zone now) (by simp [periods]) tx listed completed month⟩
  obtain ⟨period, row, found⟩ := stored
  have known : laneKey tx.lane period ∈ (aggregateVolumeSnapshot zone now txs volumes).table :=
    AList.lookup_isSome.mp (Option.isSome_iff_exists.mpr ⟨row, found⟩)
  exact (aggregateVolumeSnapshot zone now txs volumes).plain _ known

theorem kept_of_complete (complete : Complete zone now txs (aggregateVolumeSnapshot zone now txs volumes)) : Kept zone now txs volumes := by
  have plain := plainNames_of_complete complete
  refine ⟨plain, fun tx listed completed week earlier => ?_⟩
  have own := mem_transfers.mpr ⟨listed, completed, rfl, week⟩
  have row := (row_iff (plain_fetched plain) (by simp [periods]) (plain tx listed completed (.inl week)) own).mp
    (complete ("weekly", weekStart zone now) (by simp [periods]) tx listed completed week)
  obtain ⟨none_found, stored⟩ := row.resolve_left fun covered => Int.not_le_of_gt earlier (covered tx own)
  refine ⟨List.eq_nil_iff_forall_not_mem.mpr fun other member => ?_, stored⟩
  obtain ⟨among, done, same, recent⟩ := mem_transfers.mp member
  have inside := mem_transfers.mpr ⟨among, done, same, show weekStart zone now ≤ other.createdAt by omega⟩
  exact List.filter_eq_nil_iff.mp none_found other inside (decide_eq_true recent)

theorem complete_of_kept (kept : Kept zone now txs volumes) : Complete zone now txs (aggregateVolumeSnapshot zone now txs volumes) := by
  intro period member tx listed completed since
  have own := mem_transfers.mpr ⟨listed, completed, rfl, since⟩
  have later : monthStart zone now ≤ today zone now := monthStart_le_today
  have cases := member
  simp only [periods, List.mem_cons, List.not_mem_nil, or_false] at cases
  have plain : tx.lane.Plain := by
    apply kept.plain tx listed completed
    rcases cases with rfl | rfl | rfl
    · exact .inr (later.trans since)
    · exact .inl since
    · exact .inr since
  refine (row_iff (plain_fetched kept.plain) member plain own).mpr ?_
  rcases cases with rfl | rfl | rfl
  · exact .inl fun other inside => later.trans (mem_transfers.mp inside).2.2.2
  · by_cases covered : ∀ other ∈ transfers txs tx.lane (weekStart zone now), monthStart zone now ≤ other.createdAt
    · exact .inl covered
    · push Not at covered
      obtain ⟨other, inside, earlier⟩ := covered
      obtain ⟨among, done, same, week⟩ := mem_transfers.mp inside
      obtain ⟨unfetched, stored⟩ := kept.week other among done week earlier
      rw [same] at unfetched stored
      refine .inr ⟨List.filter_eq_nil_iff.mpr fun third third_in recent => ?_, stored⟩
      obtain ⟨third_among, third_done, third_same, -⟩ := mem_transfers.mp third_in
      have fetched := mem_transfers.mpr ⟨third_among, third_done, third_same, of_decide_eq_true recent⟩
      rw [unfetched] at fetched
      cases fetched
  · exact .inl fun other inside => (mem_transfers.mp inside).2.2.2

/-- A snapshot is complete just where no name has a colon and the month covers the week. -/
theorem complete_iff (zone : Zone) (now : Int) (txs : List BridgeTransaction) (volumes : Volumes) :
    Complete zone now txs (aggregateVolumeSnapshot zone now txs volumes) ↔ Kept zone now txs volumes :=
  ⟨kept_of_complete, complete_of_kept⟩

/-- The time of Greenwich. -/
def greenwich : Zone where
  localTime := id
  utc := id
  ordered d e later := Int.mul_le_mul_of_nonneg_right later (by decide)

/-- A transfer of 30 April 2024, the Tuesday of a week that ends in May. -/
def april : BridgeTransaction := ⟨"wormhole", "ethereum", "USDC", 100, "completed", 1714435200000⟩

/-- On 2 May the week has a transfer of April and no row for it. -/
theorem week_of_april_missed : ¬ Complete greenwich 1714608000000 [april]
    (aggregateVolumeSnapshot greenwich 1714608000000 [april] ⟨∅, by simp⟩) := by
  intro complete
  have missed := (kept_of_complete complete).week april List.mem_cons_self rfl (by decide) (by decide)
  cases missed.2

end Octraban.BridgeVolumes
