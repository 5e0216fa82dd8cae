import Octraban.Core.JavaScript
import Octraban.Core.Rankings
import Octraban.Core.Upsert

/-! recomputeConcentrationMetrics of tokenHolderTracker.ts: how concentrated the holders of a token are, and their
ranks. -/
namespace Octraban.HolderRanks
open JavaScript Sql Rankings

/-- A row without its dates and texts. The numbers are doubles. -/
structure TokenHolder where
  balanceRaw : ℚ
  percentage : ℚ
  rank : Option ℕ

/-- The contract and the holder. -/
abbrev Key := String × String

abbrev Rows := Table Key TokenHolder

structure Metrics where
  contractAddress : String
  nakamotoCoefficient : ℕ
  hhi : Number
  giniCoefficient : Number
  top10Pct : Number
  top100Pct : Number
  totalHolders : ℕ
  totalSupply : String
  computedAt : ℤ

structure Tables where
  tokenHolder : Rows
  tokenConcentrationMetrics : List Metrics

/-- `balanceRaw: { gt: 0 }` -/
def selected (rows : Rows) (contract : String) : List TokenHolder :=
  (rows.entries.filter fun entry => entry.1.1 = contract ∧ 0 < entry.2.balanceRaw).map Sigma.snd

def Matches (rows : Rows) (contract : String) (balance : ℚ) (key : Key) : Prop :=
  key.1 = contract ∧ (rows.lookup key).map TokenHolder.balanceRaw = some balance

instance : Decidable (Matches rows contract balance key) := inferInstanceAs (Decidable (_ ∧ _))

/-- What the database answers. The order of rows that tie is not specified, nor which of the rows that match is the
first one: the lookups, which have numbers, may differ in it. -/
structure Answers where
  findMany : Rows → String → List TokenHolder
  perm : ∀ rows contract, (findMany rows contract).Perm (selected rows contract)
  sorted : ∀ rows contract, (findMany rows contract).Pairwise fun a b => b.balanceRaw ≤ a.balanceRaw
  findFirst : ℕ → Rows → String → ℚ → Option Key
  found : ∀ {i rows contract balance key}, findFirst i rows contract balance = some key → Matches rows contract balance key
  missed : ∀ {i rows contract balance}, findFirst i rows contract balance = none →
    ∀ key, ¬ Matches rows contract balance key

/-! ### The metrics -/

/-- How many of the largest balances exceed half of the total. -/
def majority (total cumulative : Number) : List Number → ℕ
  | [] => 0
  | balance :: rest =>
    if (Number.finite (1 / 2)).lt ((cumulative.add balance).div total) then 1
    else majority total (cumulative.add balance) rest + 1

def sum (numbers : List Number) : Number := numbers.foldl Number.add (.finite 0)

def absolute : Number → Number
  | .finite x => .finite |x|
  | .infinite _ => .infinite false
  | .nan => .nan

/-- `Number(x.toFixed(places))`, where from 10^21 on `toFixed` gives all of the number. -/
def fixed (places : ℕ) : Number → Number
  | .finite x =>
    if |x| < 10 ^ 21 then roundRat ((if x < 0 then -1 else 1) * ⌊|x| * 10 ^ places + 1 / 2⌋ / 10 ^ places) else .finite x
  | x => x

def giniCoefficient (balances : List ℚ) : Number :=
  let sortedAsc := balances.mergeSort fun a b => a ≤ b
  let n := sortedAsc.length
  let sumB := sum (sortedAsc.map .finite)
  let giniNum := sum (sortedAsc.zipIdx.map fun (balance, i) => (Number.finite (2 * (i + 1) - n - 1)).mul (.finite balance))
  if (Number.finite 0).lt sumB then absolute (giniNum.div ((Number.finite n).mul sumB)) else .finite 0

def concentration (string : Number → String) (now : ℤ) (contractAddress : String) (holders : List TokenHolder) : Metrics :=
  let balances := holders.map fun h => Number.finite h.balanceRaw
  let shares := holders.map fun h => (Number.finite h.percentage).div (.finite 100)
  let total := sum balances
  let percentages := holders.map fun h => Number.finite h.percentage
  { contractAddress
    nakamotoCoefficient := majority total (.finite 0) balances
    hhi := fixed 6 (sum (shares.map fun p => p.mul p))
    giniCoefficient := fixed 4 (giniCoefficient (holders.map TokenHolder.balanceRaw))
    top10Pct := fixed 2 (sum (percentages.take 10))
    top100Pct := fixed 2 (sum (percentages.take 100))
    totalHolders := holders.length
    totalSupply := string total
    computedAt := now }

/-! ### The ranks -/

/-- One turn of the loop: the holder of this place is looked up by its balance. -/
def rerank (answers : Answers) (contractAddress : String) (rows : Rows) (entry : TokenHolder × ℕ) : Rows :=
  match answers.findFirst entry.2 rows contractAddress entry.1.balanceRaw with
  | some existing => rows.updateRow existing fun row => { row with rank := some (entry.2 + 1) }
  | none => rows

def recomputeConcentrationMetrics (answers : Answers) (string : Number → String) (now : ℤ) (contractAddress : String)
    (s : Tables) : Tables :=
  let holders := answers.findMany s.tokenHolder contractAddress
  if holders.isEmpty then s
  else
    { tokenHolder := (holders.take 10000).zipIdx.foldl (rerank answers contractAddress) s.tokenHolder
      tokenConcentrationMetrics := s.tokenConcentrationMetrics ++ [concentration string now contractAddress holders] }

def balance (rows : Rows) (key : Key) : ℚ := (rows.lookup key).elim 0 TokenHolder.balanceRaw

def rank (rows : Rows) (key : Key) : Option ℕ := (rows.lookup key).bind TokenHolder.rank

/-- The keys of those with a positive balance. -/
def holders (rows : Rows) (contract : String) : Finset Key :=
  rows.keys.toFinset.filter fun key => key.1 = contract ∧ 0 < balance rows key

/-- The ranks are 1, 2, … without repetition, and larger balances have smaller ones. -/
def Ranked (rows : Rows) (contract : String) : Prop :=
  (∀ key ∈ holders rows contract, (rank rows key).isSome) ∧
    IsRanking (holders rows contract) (balance rows) fun key => (rank rows key).getD 0

/-- A balance has one holder, or two that both have the better rank of theirs already. -/
def Settled (rows : Rows) (contract : String) : Prop :=
  ∀ key ∈ holders rows contract, (tied (holders rows contract) (balance rows) key).card ≤ 1 ∨
    ((tied (holders rows contract) (balance rows) key).card = 2 ∧
      rank rows key = some (above (holders rows contract) (balance rows) key + 1))

instance : Decidable (Settled rows contract) := inferInstanceAs (Decidable (∀ key ∈ _, _))

variable {answers : Answers} {string : Number → String} {now : ℤ} {contract : String} {rows mid : Rows} {s : Tables}
  {entry : TokenHolder × ℕ} {entries : List (TokenHolder × ℕ)} {key other : Key} {v : ℚ}

theorem mem_holders : key ∈ holders rows contract ↔ key.1 = contract ∧ 0 < balance rows key := by
  rw [holders, Finset.mem_filter, List.mem_toFinset, and_iff_right_iff_imp]
  rintro ⟨-, positive⟩
  by_contra unknown
  rw [balance, AList.lookup_eq_none.mpr unknown] at positive
  exact lt_irrefl _ positive

theorem balance_of_matches (matched : Matches rows contract v key) : balance rows key = v := by
  obtain ⟨row, known, rfl⟩ := Option.map_eq_some_iff.mp matched.2
  rw [balance, known]
  rfl

theorem matches_iff (positive : 0 < v) :
    Matches rows contract v key ↔ key ∈ holders rows contract ∧ balance rows key = v := by
  rw [mem_holders]
  constructor
  · intro matched
    have same := balance_of_matches matched
    exact ⟨⟨matched.1, same ▸ positive⟩, same⟩
  · rintro ⟨⟨named, -⟩, rfl⟩
    refine ⟨named, ?_⟩
    cases known : rows.lookup key with
    | none =>
      rw [balance, known] at positive
      exact absurd positive (lt_irrefl _)
    | some row =>
      rw [balance, known]
      rfl

theorem holders_congr (same : balance mid = balance rows) : holders mid contract = holders rows contract := by
  ext key
  rw [mem_holders, mem_holders, same]

/-! ### One turn -/

theorem lookup_rerank_of_ne (different : answers.findFirst entry.2 rows contract entry.1.balanceRaw ≠ some key) :
    (rerank answers contract rows entry).lookup key = rows.lookup key := by
  unfold rerank
  split
  · rename_i existing found
    apply Table.lookup_updateRow_ne
    rintro rfl
    exact different found
  · rfl

theorem lookup_rerank_of_eq (found : answers.findFirst entry.2 rows contract entry.1.balanceRaw = some key) :
    (rerank answers contract rows entry).lookup key =
      (rows.lookup key).map fun row => { row with rank := some (entry.2 + 1) } := by
  rw [rerank, found]
  exact Table.lookup_updateRow_self

theorem balance_rerank : balance (rerank answers contract rows entry) = balance rows := by
  funext key
  by_cases found : answers.findFirst entry.2 rows contract entry.1.balanceRaw = some key
  · rw [balance, lookup_rerank_of_eq found, balance]
    cases rows.lookup key <;> rfl
  · rw [balance, lookup_rerank_of_ne found, balance]

theorem rank_rerank_of_ne (different : answers.findFirst entry.2 rows contract entry.1.balanceRaw ≠ some key) :
    rank (rerank answers contract rows entry) key = rank rows key := by
  rw [rank, lookup_rerank_of_ne different, rank]

theorem rank_rerank_of_eq (found : answers.findFirst entry.2 rows contract entry.1.balanceRaw = some key) :
    rank (rerank answers contract rows entry) key = some (entry.2 + 1) := by
  obtain ⟨row, known, -⟩ := Option.map_eq_some_iff.mp (answers.found found).2
  rw [rank, lookup_rerank_of_eq found, known]
  rfl

/-! ### The loop -/

theorem balance_foldl : balance (entries.foldl (rerank answers contract) rows) = balance rows := by
  induction entries generalizing rows with
  | nil => rfl
  | cons entry entries ih => rw [List.foldl_cons, ih, balance_rerank]

/-- Turns whose lookups miss a holder keep its rank. -/
theorem rank_foldl_of_missed (missed : ∀ entry ∈ entries, ∀ before, balance before = balance rows →
    answers.findFirst entry.2 before contract entry.1.balanceRaw ≠ some key) :
    rank (entries.foldl (rerank answers contract) rows) key = rank rows key := by
  induction entries generalizing rows with
  | nil => rfl
  | cons entry entries ih =>
    obtain ⟨first, missed⟩ := List.forall_mem_cons.mp missed
    rw [List.foldl_cons, ih, rank_rerank_of_ne (first rows rfl)]
    rwa [balance_rerank]

theorem rank_zipIdx_of_ne {list : List TokenHolder} (others : ∀ h ∈ list, h.balanceRaw ≠ balance rows key) (start : ℕ) :
    rank ((list.zipIdx start).foldl (rerank answers contract) rows) key = rank rows key := by
  apply rank_foldl_of_missed
  intro entry member before same found
  apply others _ (List.fst_mem_of_mem_zipIdx member)
  rw [← same, balance_of_matches (answers.found found)]

/-- A rank is kept, or it is the place of a turn. -/
theorem rank_zipIdx_cases (turns : List TokenHolder) (start : ℕ) (rows : Rows) (key : Key) :
    rank ((turns.zipIdx start).foldl (rerank answers contract) rows) key = rank rows key ∨
      ∃ r, rank ((turns.zipIdx start).foldl (rerank answers contract) rows) key = some r ∧
        start < r ∧ r ≤ start + turns.length := by
  induction turns generalizing rows start with
  | nil => exact .inl rfl
  | cons h turns ih =>
    rw [List.zipIdx_cons, List.foldl_cons, List.length_cons]
    rcases ih (start + 1) (rerank answers contract rows (h, start)) with kept | ⟨r, placed, low, high⟩
    · rw [kept]
      by_cases found : answers.findFirst start rows contract h.balanceRaw = some key
      · exact .inr ⟨start + 1, rank_rerank_of_eq found, by omega, by omega⟩
      · exact .inl (rank_rerank_of_ne found)
    · exact .inr ⟨r, placed, by omega, by omega⟩

/-- The lookups of a positive balance find a holder that has it. -/
theorem exists_found (answers : Answers) (member : key ∈ holders rows contract) (same : balance rows key = v) (i : ℕ) :
    ∃ other ∈ tied (holders rows contract) (balance rows) key, answers.findFirst i rows contract v = some other := by
  have positive : 0 < v := same ▸ (mem_holders.mp member).2
  cases found : answers.findFirst i rows contract v with
  | none => exact absurd ((matches_iff positive).mpr ⟨member, same⟩) (answers.missed found key)
  | some other =>
    obtain ⟨known, equal⟩ := (matches_iff positive).mp (answers.found found)
    exact ⟨other, mem_tied.mpr ⟨known, equal.trans same.symm⟩, rfl⟩

/-- As many rows as holders are read, of whatever balances. -/
theorem length_filter (takes : ℚ → Prop) [DecidablePred takes] {list : List TokenHolder}
    (perm : list.Perm (selected rows contract)) : (list.filter fun h => takes h.balanceRaw).length =
      ((holders rows contract).filter fun key => takes (balance rows key)).card := by
  have unique : ((rows.entries.filter fun entry =>
      takes entry.2.balanceRaw && decide (entry.1.1 = contract ∧ 0 < entry.2.balanceRaw)).map Sigma.fst).Nodup :=
    List.Nodup.sublist (List.filter_sublist.map Sigma.fst) rows.nodupKeys
  have same : ((rows.entries.filter fun entry =>
      takes entry.2.balanceRaw && decide (entry.1.1 = contract ∧ 0 < entry.2.balanceRaw)).map Sigma.fst).toFinset =
      (holders rows contract).filter fun key => takes (balance rows key) := by
    ext key
    rw [List.mem_toFinset, Finset.mem_filter, mem_holders, List.mem_map]
    constructor
    · rintro ⟨⟨key, row⟩, member, rfl⟩
      obtain ⟨known, chosen⟩ := List.mem_filter.mp member
      have value : balance rows key = row.balanceRaw := by rw [balance, AList.mem_lookup_iff.mpr known, Option.elim_some]
      simp only [Bool.and_eq_true, decide_eq_true_eq] at chosen
      rw [value]
      exact ⟨chosen.2, chosen.1⟩
    · rintro ⟨⟨named, positive⟩, chosen⟩
      cases known : rows.lookup key with
      | none =>
        rw [balance, known] at positive
        exact absurd positive (lt_irrefl _)
      | some row =>
        have value : balance rows key = row.balanceRaw := by rw [balance, known, Option.elim_some]
        rw [value] at positive chosen
        refine ⟨⟨key, row⟩, List.mem_filter.mpr ⟨AList.mem_lookup_iff.mp known, ?_⟩, rfl⟩
        simp only [Bool.and_eq_true, decide_eq_true_eq]
        exact ⟨chosen, named, positive⟩
  rw [(perm.filter _).length_eq, selected, List.filter_map, List.length_map, List.filter_filter, ← same,
    List.toFinset_card_of_nodup unique, List.length_map]
  rfl

/-- Where few enough rows are read, the loop takes all of them. -/
theorem tokenHolder_recompute (few : (holders s.tokenHolder contract).card ≤ 10000) :
    (recomputeConcentrationMetrics answers string now contract s).tokenHolder =
      (answers.findMany s.tokenHolder contract).zipIdx.foldl (rerank answers contract) s.tokenHolder := by
  have length := length_filter (fun _ => True) (answers.perm s.tokenHolder contract)
  simp only [decide_true, List.filter_true, Finset.filter_true] at length
  rw [recomputeConcentrationMetrics, List.take_of_length_le (length.trans_le few)]
  split
  · rename_i empty
    rw [List.isEmpty_iff.mp empty]
    rfl
  · rfl

theorem balance_recompute (answers : Answers) (string : Number → String) (now : ℤ)
    (few : (holders s.tokenHolder contract).card ≤ 10000) :
    balance (recomputeConcentrationMetrics answers string now contract s).tokenHolder = balance s.tokenHolder := by
  rw [tokenHolder_recompute few, balance_foldl]

/-- What a recomputation does to a tie is what the turns with its balance do, which come after those of the greater ones. -/
theorem exists_turns (answers : Answers) (string : Number → String) (now : ℤ)
    (few : (holders s.tokenHolder contract).card ≤ 10000) (key : Key) :
    ∃ (mid : Rows) (turns : List TokenHolder), balance mid = balance s.tokenHolder ∧
      turns.length = (tied (holders s.tokenHolder contract) (balance s.tokenHolder) key).card ∧
      (∀ h ∈ turns, h.balanceRaw = balance s.tokenHolder key) ∧
      ∀ other, balance s.tokenHolder other = balance s.tokenHolder key →
        rank mid other = rank s.tokenHolder other ∧
        rank (recomputeConcentrationMetrics answers string now contract s).tokenHolder other =
          rank ((turns.zipIdx (above (holders s.tokenHolder contract) (balance s.tokenHolder) key)).foldl
            (rerank answers contract) mid) other := by
  have perm := answers.perm s.tokenHolder contract
  have parts := eq_append_of_pairwise (answers.sorted s.tokenHolder contract) (balance s.tokenHolder key)
  have greater := length_filter (fun v => balance s.tokenHolder key < v) perm
  have equal := length_filter (fun v => v = balance s.tokenHolder key) perm
  rw [tokenHolder_recompute few]
  generalize answers.findMany s.tokenHolder contract = list at parts greater equal ⊢
  rw [parts, List.zipIdx_append, List.zipIdx_append, List.foldl_append, List.foldl_append, Nat.zero_add, greater]
  refine ⟨(list.filter fun h => balance s.tokenHolder key < h.balanceRaw).zipIdx.foldl (rerank answers contract)
    s.tokenHolder, list.filter fun h => h.balanceRaw = balance s.tokenHolder key, balance_foldl, equal, ?_, ?_⟩
  · intro h member
    exact of_decide_eq_true (List.mem_filter.mp member).2
  · intro other same
    constructor
    · apply rank_zipIdx_of_ne
      intro h member
      rw [same]
      exact (of_decide_eq_true (List.mem_filter.mp member).2).ne'
    · apply rank_zipIdx_of_ne
      intro h member
      rw [balance_foldl, balance_foldl, same]
      exact (of_decide_eq_true (List.mem_filter.mp member).2).ne

/-- The last turn of a tie ranks the holder that it finds last in the tie. -/
theorem exists_last (answers : Answers) {turns : List TokenHolder} (start : ℕ) (member : key ∈ holders rows contract)
    (nonempty : turns ≠ []) (all : ∀ h ∈ turns, h.balanceRaw = balance rows key) :
    ∃ i before, balance before = balance rows ∧ ∃ last, answers.findFirst i before contract (balance rows key) = some last ∧
      last ∈ tied (holders rows contract) (balance rows) key ∧
      rank ((turns.zipIdx start).foldl (rerank answers contract) rows) last = some (start + turns.length) ∧
      ∀ other, other ≠ last → rank ((turns.zipIdx start).foldl (rerank answers contract) rows) other = rank rows other ∨
        ∃ r, rank ((turns.zipIdx start).foldl (rerank answers contract) rows) other = some r ∧
          start < r ∧ r < start + turns.length := by
  obtain ⟨turns, h, rfl⟩ := (List.eq_nil_or_concat turns).resolve_left nonempty
  have same : balance ((turns.zipIdx start).foldl (rerank answers contract) rows) = balance rows := balance_foldl
  obtain ⟨last, tie, found⟩ := exists_found answers ((holders_congr same).symm ▸ member) (congrFun same key)
    (start + turns.length)
  rw [holders_congr same, same] at tie
  have value := all h (by rw [List.concat_eq_append]; exact List.mem_append_right _ List.mem_cons_self)
  rw [List.concat_eq_append, List.zipIdx_append, List.foldl_append, List.length_append]
  refine ⟨start + turns.length, _, same, last, found, tie, ?_, ?_⟩
  · apply rank_rerank_of_eq
    rw [value]
    exact found
  · intro other different
    have kept : rank ((turns.zipIdx start ++ [h].zipIdx (start + turns.length)).foldl (rerank answers contract) rows) other =
        rank ((turns.zipIdx start).foldl (rerank answers contract) rows) other := by
      rw [List.foldl_append]
      apply rank_rerank_of_ne
      rw [value, found]
      exact fun equal => different (Option.some.inj equal).symm
    rw [List.foldl_append] at kept
    rw [kept]
    rcases rank_zipIdx_cases turns start rows other with old | ⟨r, placed, low, high⟩
    · exact .inl old
    · refine .inr ⟨r, placed, low, ?_⟩
      rw [List.length_singleton]
      omega

/-! ### Settled ties -/

/-- In a settled tie all ranks are places of the tie, and no two are the same. -/
theorem ranks_of_settled (answers : Answers) (string : Number → String) (now : ℤ)
    (few : (holders s.tokenHolder contract).card ≤ 10000) (settled : Settled s.tokenHolder contract)
    (member : key ∈ holders s.tokenHolder contract) :
    ∃ last ∈ tied (holders s.tokenHolder contract) (balance s.tokenHolder) key,
      rank (recomputeConcentrationMetrics answers string now contract s).tokenHolder last =
        some (above (holders s.tokenHolder contract) (balance s.tokenHolder) key +
          (tied (holders s.tokenHolder contract) (balance s.tokenHolder) key).card) ∧
      ∀ other ∈ tied (holders s.tokenHolder contract) (balance s.tokenHolder) key, other ≠ last →
        (tied (holders s.tokenHolder contract) (balance s.tokenHolder) key).card = 2 ∧
        rank (recomputeConcentrationMetrics answers string now contract s).tokenHolder other =
          some (above (holders s.tokenHolder contract) (balance s.tokenHolder) key + 1) := by
  obtain ⟨mid, turns, same, length, all, ranks⟩ := exists_turns answers string now few key
  have self := self_mem_tied (balance s.tokenHolder) member
  have nonempty : turns ≠ [] := by
    rintro rfl
    exact (Finset.card_pos.mpr ⟨key, self⟩).ne length
  obtain ⟨i, before, -, last, -, tie, placed, others⟩ := exists_last answers
    (above (holders s.tokenHolder contract) (balance s.tokenHolder) key) ((holders_congr same).symm ▸ member) nonempty
    (same ▸ all)
  rw [holders_congr same, same] at tie
  refine ⟨last, tie, ?_, ?_⟩
  · rw [(ranks last (mem_tied.mp tie).2).2, placed, length]
  · intro other inside different
    have two : 1 < (tied (holders s.tokenHolder contract) (balance s.tokenHolder) key).card :=
      Finset.one_lt_card.mpr ⟨other, inside, last, tie, different⟩
    obtain ⟨known, equal⟩ := mem_tied.mp inside
    obtain ⟨pair, first⟩ := (settled other known).resolve_left (by rw [tied_congr equal]; omega)
    rw [tied_congr equal] at pair
    rw [above_congr equal] at first
    refine ⟨pair, ?_⟩
    rw [(ranks other equal).2]
    rcases others other different with kept | ⟨r, placed, low, high⟩
    · rw [kept, (ranks other equal).1, first]
    · rw [placed]
      congr 1
      omega

theorem ranked_of_settled (answers : Answers) (string : Number → String) (now : ℤ)
    (few : (holders s.tokenHolder contract).card ≤ 10000) (settled : Settled s.tokenHolder contract) :
    Ranked (recomputeConcentrationMetrics answers string now contract s).tokenHolder contract := by
  have same := balance_recompute answers string now few
  rw [Ranked, holders_congr same, same]
  have place (key : Key) (member : key ∈ holders s.tokenHolder contract) :
      ∃ r ∈ Finset.Ioc (above (holders s.tokenHolder contract) (balance s.tokenHolder) key)
        (above (holders s.tokenHolder contract) (balance s.tokenHolder) key +
          (tied (holders s.tokenHolder contract) (balance s.tokenHolder) key).card),
        rank (recomputeConcentrationMetrics answers string now contract s).tokenHolder key = some r := by
    have self := self_mem_tied (balance s.tokenHolder) member
    have positive := Finset.card_pos.mpr ⟨key, self⟩
    obtain ⟨last, tie, placed, others⟩ := ranks_of_settled answers string now few settled member
    by_cases final : key = last
    · subst final
      refine ⟨_, ?_, placed⟩
      rw [Finset.mem_Ioc]
      omega
    · refine ⟨_, ?_, (others key self final).2⟩
      rw [Finset.mem_Ioc]
      omega
  constructor
  · intro key member
    obtain ⟨r, -, placed⟩ := place key member
    rw [placed]
    rfl
  · apply isRanking_of_mem_Ioc
    · intro key member
      obtain ⟨r, within, placed⟩ := place key member
      rw [placed]
      exact within
    · intro key left other right equal shared
      obtain ⟨last, tie, placed, others⟩ := ranks_of_settled answers string now few settled left
      have first := self_mem_tied (balance s.tokenHolder) left
      have second : other ∈ tied (holders s.tokenHolder contract) (balance s.tokenHolder) key :=
        mem_tied.mpr ⟨right, equal.symm⟩
      by_cases left_last : key = last <;> by_cases right_last : other = last
      · rw [left_last, right_last]
      · obtain ⟨pair, better⟩ := others other second right_last
        rw [left_last, placed, better, Option.getD_some, Option.getD_some] at shared
        omega
      · obtain ⟨pair, better⟩ := others key first left_last
        rw [right_last, placed, better, Option.getD_some, Option.getD_some] at shared
        omega
      · by_contra different
        have pair := (others key first left_last).1
        have many := Finset.two_lt_card.mpr ⟨key, first, other, second, last, tie, different, left_last, right_last⟩
        omega

/-! ### A database with a favourite -/

/-- The lookups that match the favourite find it. -/
def preferring (favourite : Key) : Answers where
  findMany rows contract := (selected rows contract).mergeSort fun a b => b.balanceRaw ≤ a.balanceRaw
  perm rows contract := List.mergeSort_perm _ _
  sorted rows contract := by
    have falling : ((selected rows contract).mergeSort fun a b => b.balanceRaw ≤ a.balanceRaw).Pairwise
        fun a b => decide (b.balanceRaw ≤ a.balanceRaw) = true := by
      apply List.pairwise_mergeSort
      · intro a b c first second
        exact decide_eq_true ((of_decide_eq_true second).trans (of_decide_eq_true first))
      · intro a b
        simpa using le_total b.balanceRaw a.balanceRaw
    exact falling.imp of_decide_eq_true
  findFirst _ rows contract balance :=
    if Matches rows contract balance favourite then some favourite else rows.keys.find? (Matches rows contract balance)
  found := by
    intro i rows contract balance key found
    split at found
    · cases found
      assumption
    · have matched := List.find?_some found
      exact of_decide_eq_true matched
  missed := by
    intro i rows contract balance missed key matched
    split at missed
    · cases missed
    · have absent := List.find?_eq_none.mp missed key
      obtain ⟨row, known, -⟩ := Option.map_eq_some_iff.mp matched.2
      exact absent (AList.mem_keys.mp (AList.lookup_isSome.mp (known ▸ rfl))) (decide_eq_true matched)

theorem findFirst_preferring (member : key ∈ holders rows contract) (i : ℕ) :
    (preferring key).findFirst i rows contract (balance rows key) = some key :=
  if_pos ((matches_iff (mem_holders.mp member).2).mpr ⟨member, rfl⟩)

/-- The favourite gets the last rank of its tie, and the others of the tie keep what they have. -/
theorem rank_preferring (string : Number → String) (now : ℤ) (few : (holders s.tokenHolder contract).card ≤ 10000)
    (member : key ∈ holders s.tokenHolder contract) :
    rank (recomputeConcentrationMetrics (preferring key) string now contract s).tokenHolder key =
        some (above (holders s.tokenHolder contract) (balance s.tokenHolder) key +
          (tied (holders s.tokenHolder contract) (balance s.tokenHolder) key).card) ∧
      ∀ other, balance s.tokenHolder other = balance s.tokenHolder key → other ≠ key →
        rank (recomputeConcentrationMetrics (preferring key) string now contract s).tokenHolder other =
          rank s.tokenHolder other := by
  obtain ⟨mid, turns, same, length, all, ranks⟩ := exists_turns (preferring key) string now few key
  have finds (before : Rows) (equal : balance before = balance s.tokenHolder) (i : ℕ) :
      (preferring key).findFirst i before contract (balance s.tokenHolder key) = some key := by
    rw [← equal]
    exact findFirst_preferring ((holders_congr equal).symm ▸ member) i
  constructor
  · have nonempty : turns ≠ [] := by
      rintro rfl
      exact (Finset.card_pos.mpr ⟨key, self_mem_tied _ member⟩).ne length
    obtain ⟨i, before, equal, last, found, -, placed, -⟩ := exists_last (preferring key)
      (above (holders s.tokenHolder contract) (balance s.tokenHolder) key) ((holders_congr same).symm ▸ member) nonempty
      (same ▸ all)
    rw [same, finds before (equal.trans same)] at found
    cases found
    rw [(ranks key rfl).2, placed, length]
  · intro other tie different
    rw [(ranks other tie).2, ← (ranks other tie).1]
    apply rank_foldl_of_missed
    intro entry turn before equal found
    rw [all _ (List.fst_mem_of_mem_zipIdx turn), finds before (equal.trans same)] at found
    exact different (Option.some.inj found).symm

theorem settled_of_ranked (string : Number → String) (now : ℤ) (few : (holders s.tokenHolder contract).card ≤ 10000)
    (ranked : ∀ answers, Ranked (recomputeConcentrationMetrics answers string now contract s).tokenHolder contract) :
    Settled s.tokenHolder contract := by
  intro key member
  have rankings (h : Key) : IsRanking (holders s.tokenHolder contract) (balance s.tokenHolder) fun other =>
      (rank (recomputeConcentrationMetrics (preferring h) string now contract s).tokenHolder other).getD 0 := by
    have same := balance_recompute (preferring h) string now few
    have ranking := (ranked (preferring h)).2
    rwa [holders_congr same, same] at ranking
  have parts := single_or_pair (fun other => (rank s.tokenHolder other).getD 0) member (fun h _ => rankings h) ?_ ?_
  · refine parts.imp id fun ⟨pair, first⟩ => ⟨pair, ?_⟩
    cases known : rank s.tokenHolder key with
    | none =>
      rw [known, Option.getD_none] at first
      omega
    | some r =>
      rw [known, Option.getD_some] at first
      rw [first]
  · intro h tie
    obtain ⟨known, equal⟩ := mem_tied.mp tie
    rw [(rank_preferring string now few known).1, above_congr equal, tied_congr equal, Option.getD_some]
  · intro h tie other inside different
    obtain ⟨known, equal⟩ := mem_tied.mp tie
    rw [(rank_preferring string now few known).2 other ((mem_tied.mp inside).2.trans equal.symm) different]

/-- Whichever rows the lookups find, the holders are ranked afterwards: exactly where each tie was settled before. -/
theorem ranked_iff_settled (string : Number → String) (now : ℤ) (contract : String) (s : Tables)
    (few : (holders s.tokenHolder contract).card ≤ 10000) :
    (∀ answers, Ranked (recomputeConcentrationMetrics answers string now contract s).tokenHolder contract) ↔
      Settled s.tokenHolder contract :=
  ⟨settled_of_ranked string now few, fun settled answers => ranked_of_settled answers string now few settled⟩

/-- Two holders with a balance each. -/
def pair (first second : ℚ) : Tables where
  tokenHolder := ⟨[⟨("C", "GA"), first, 50, none⟩, ⟨("C", "GB"), second, 50, none⟩],
    (by decide : [("C", "GA"), ("C", "GB")].Nodup)⟩
  tokenConcentrationMetrics := []

theorem ranked_pair : (holders (pair 6 5).tokenHolder "C").card ≤ 10000 ∧
    ∀ answers, Ranked (recomputeConcentrationMetrics answers Number.text 0 "C" (pair 6 5)).tokenHolder "C" :=
  ⟨by decide, (ranked_iff_settled Number.text 0 "C" (pair 6 5) (by decide)).mpr (by decide)⟩

/-- Of two holders of five tokens each, one stays without a rank. -/
theorem unranked_tie : (holders (pair 5 5).tokenHolder "C").card ≤ 10000 ∧
    ¬ Ranked (recomputeConcentrationMetrics (preferring ("C", "GA")) Number.text 0 "C" (pair 5 5)).tokenHolder "C" := by
  have few : (holders (pair 5 5).tokenHolder "C").card ≤ 10000 := by decide
  refine ⟨few, fun ranked => ?_⟩
  have same := balance_recompute (preferring ("C", "GA")) Number.text 0 few
  have member : ("C", "GB") ∈ holders (pair 5 5).tokenHolder "C" := by decide
  have placed := ranked.1 ("C", "GB") ((holders_congr same).symm ▸ member)
  rw [(rank_preferring Number.text 0 few (by decide)).2 ("C", "GB") (by decide) (by decide)] at placed
  exact absurd placed (by decide)

end Octraban.HolderRanks
