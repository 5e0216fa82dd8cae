import Mathlib.Algebra.Order.BigOperators.Group.Finset
import Mathlib.Data.Finset.Max
import Mathlib.Order.Interval.Finset.Nat

/-! Rankings of a finite set by size, where elements of one size share the ranks of their tie in any order. -/
namespace Rankings

variable {A B : Type*} [LinearOrder B] (items : Finset A) (size : A → B)

/-- How many are greater. -/
def above (a : A) : ℕ := (items.filter fun b => size a < size b).card

/-- Those of the same size, with the element itself. -/
def tied (a : A) : Finset A := items.filter fun b => size b = size a

structure IsRanking (rank : A → ℕ) : Prop where
  ranks : Set.BijOn rank items (Finset.Icc 1 items.card)
  order : ∀ a ∈ items, ∀ b ∈ items, size a < size b → rank b < rank a

variable {items size} {rank : A → ℕ} {a b : A}

theorem mem_tied : b ∈ tied items size a ↔ b ∈ items ∧ size b = size a := Finset.mem_filter

theorem self_mem_tied (size : A → B) (member : a ∈ items) : a ∈ tied items size a := mem_tied.mpr ⟨member, rfl⟩

theorem above_congr (same : size a = size b) : above items size a = above items size b := by
  unfold above
  rw [same]

theorem tied_congr (same : size a = size b) : tied items size a = tied items size b := by
  unfold tied
  rw [same]

theorem above_add_tied (a : A) :
    above items size a + (tied items size a).card = (items.filter fun b => size a ≤ size b).card := by
  have disjoint : Disjoint (items.filter fun b => size a < size b) (tied items size a) := by
    refine Finset.disjoint_filter.mpr fun b _ less same => ?_
    exact less.ne' same
  classical
  rw [above, ← Finset.card_union_of_disjoint disjoint, tied, ← Finset.filter_or]
  congr 1
  refine Finset.filter_congr fun b _ => ?_
  rw [le_iff_lt_or_eq, eq_comm (a := size b)]

theorem above_add_tied_le_card (items : Finset A) (size : A → B) (a : A) :
    above items size a + (tied items size a).card ≤ items.card := by
  rw [above_add_tied]
  exact Finset.card_filter_le _ _

theorem above_add_tied_le_above (less : size a < size b) :
    above items size b + (tied items size b).card ≤ above items size a := by
  rw [above_add_tied]
  refine Finset.card_le_card fun c member => ?_
  obtain ⟨member, greater⟩ := Finset.mem_filter.mp member
  exact Finset.mem_filter.mpr ⟨member, less.trans_le greater⟩

theorem IsRanking.card_lt (ranking : IsRanking items size rank) (member : a ∈ items) :
    (items.filter fun b => rank b < rank a).card = rank a - 1 := by
  have range := ranking.ranks.mapsTo member
  rw [Finset.coe_Icc, Set.mem_Icc] at range
  have image : (items.filter fun b => rank b < rank a).image rank = Finset.Ico 1 (rank a) := by
    ext r
    rw [Finset.mem_image, Finset.mem_Ico]
    constructor
    · rintro ⟨b, inside, rfl⟩
      obtain ⟨known, less⟩ := Finset.mem_filter.mp inside
      have low := ranking.ranks.mapsTo known
      rw [Finset.coe_Icc, Set.mem_Icc] at low
      exact ⟨low.1, less⟩
    · rintro ⟨low, less⟩
      have taken : r ∈ rank '' items := by
        apply ranking.ranks.surjOn
        rw [Finset.coe_Icc, Set.mem_Icc]
        omega
      obtain ⟨b, known, rfl⟩ := taken
      exact ⟨b, Finset.mem_filter.mpr ⟨known, less⟩, rfl⟩
  have injective : Set.InjOn rank ((items.filter fun b => rank b < rank a : Finset A) : Set A) :=
    ranking.ranks.injOn.mono fun b inside => (Finset.mem_filter.mp inside).1
  rw [← Finset.card_image_of_injOn injective, image, Nat.card_Ico]

/-- The ranks of a tie come after those of the greater elements. -/
theorem IsRanking.mem_Ioc (ranking : IsRanking items size rank) (member : a ∈ items) :
    rank a ∈ Finset.Ioc (above items size a) (above items size a + (tied items size a).card) := by
  have range := ranking.ranks.mapsTo member
  rw [Finset.coe_Icc, Set.mem_Icc] at range
  have count := ranking.card_lt member
  have least : above items size a ≤ rank a - 1 := by
    rw [← count]
    refine Finset.card_le_card fun b greater => ?_
    obtain ⟨known, greater⟩ := Finset.mem_filter.mp greater
    exact Finset.mem_filter.mpr ⟨known, ranking.order a member b known greater⟩
  have most : rank a - 1 < above items size a + (tied items size a).card := by
    rw [← count, above_add_tied]
    refine Finset.card_lt_card ⟨fun b less => ?_, fun all => ?_⟩
    · obtain ⟨known, less⟩ := Finset.mem_filter.mp less
      refine Finset.mem_filter.mpr ⟨known, not_lt.mp fun smaller => ?_⟩
      exact lt_asymm less (ranking.order b known a member smaller)
    · have inside := all (Finset.mem_filter.mpr ⟨member, le_rfl⟩)
      exact lt_irrefl _ (Finset.mem_filter.mp inside).2
  rw [Finset.mem_Ioc]
  omega

/-- Ranks are a ranking when they are distinct within each tie and lie where the tie's ranks do. -/
theorem isRanking_of_mem_Ioc
    (within : ∀ a ∈ items, rank a ∈ Finset.Ioc (above items size a) (above items size a + (tied items size a).card))
    (distinct : ∀ a ∈ items, ∀ b ∈ items, size a = size b → rank a = rank b → a = b) : IsRanking items size rank := by
  have order : ∀ a ∈ items, ∀ b ∈ items, size a < size b → rank b < rank a := by
    intro a left b right less
    have low := (Finset.mem_Ioc.mp (within a left)).1
    have high := (Finset.mem_Ioc.mp (within b right)).2
    exact high.trans_lt ((above_add_tied_le_above less).trans_lt low)
  have maps : Set.MapsTo rank items (Finset.Icc 1 items.card) := by
    intro a member
    have range := Finset.mem_Ioc.mp (within a member)
    have most := above_add_tied_le_card items size a
    rw [Finset.coe_Icc, Set.mem_Icc]
    omega
  have injective : Set.InjOn rank items := by
    intro a left b right same
    rcases lt_trichotomy (size a) (size b) with less | equal | greater
    · exact absurd same (order a left b right less).ne'
    · exact distinct a left b right equal same
    · exact absurd same (order b right a left greater).ne
  refine ⟨⟨maps, injective, ?_⟩, order⟩
  refine Finset.surjOn_of_injOn_of_card_le rank maps injective ?_
  rw [Nat.card_Icc]
  omega

theorem IsRanking.sum_tied (ranking : IsRanking items size rank) (a : A) :
    ∑ b ∈ tied items size a, rank b =
      ∑ r ∈ Finset.Ioc (above items size a) (above items size a + (tied items size a).card), r := by
  have injective : Set.InjOn rank (tied items size a) :=
    ranking.ranks.injOn.mono fun b member => (mem_tied.mp member).1
  have image : (tied items size a).image rank =
      Finset.Ioc (above items size a) (above items size a + (tied items size a).card) := by
    apply Finset.eq_of_subset_of_card_le
    · intro r taken
      obtain ⟨b, member, rfl⟩ := Finset.mem_image.mp taken
      obtain ⟨known, same⟩ := mem_tied.mp member
      rw [← above_congr same, ← tied_congr same]
      exact ranking.mem_Ioc known
    · rw [Finset.card_image_of_injOn injective, Nat.card_Ioc]
      omega
  rw [← image, Finset.sum_image injective]

/-- Whichever element of a tie takes the last rank while the others keep theirs, rankings result: then the tie is a
single element, or a pair that has its first rank twice. -/
theorem single_or_pair (old : A → ℕ) {ranks : A → A → ℕ} (member : a ∈ items)
    (ranking : ∀ h ∈ tied items size a, IsRanking items size (ranks h))
    (moved : ∀ h ∈ tied items size a, ranks h h = above items size a + (tied items size a).card)
    (kept : ∀ h ∈ tied items size a, ∀ b ∈ tied items size a, b ≠ h → ranks h b = old b) :
    (tied items size a).card ≤ 1 ∨ ((tied items size a).card = 2 ∧ old a = above items size a + 1) := by
  classical
  -- all the old ranks of the tie are the same, as leaving out any of them leaves the same sum
  have same : ∀ h ∈ tied items size a, ∀ k ∈ tied items size a, old h = old k := by
    have balance : ∀ h ∈ tied items size a, above items size a + (tied items size a).card + ∑ b ∈ tied items size a, old b =
        old h + ∑ r ∈ Finset.Ioc (above items size a) (above items size a + (tied items size a).card), r := by
      intro h inside
      have rest : ∑ b ∈ (tied items size a).erase h, ranks h b = ∑ b ∈ (tied items size a).erase h, old b := by
        refine Finset.sum_congr rfl fun b other => ?_
        obtain ⟨different, tie⟩ := Finset.mem_erase.mp other
        exact kept h inside b tie different
      have total := (ranking h inside).sum_tied a
      rw [← Finset.add_sum_erase _ _ inside, moved h inside, rest] at total
      rw [← total, ← Finset.add_sum_erase _ old inside]
      omega
    intro h left k right
    have first := balance h left
    have second := balance k right
    omega
  have self := self_mem_tied size member
  have separate {h b c : A} (last : h ∈ tied items size a) (left : b ∈ tied items size a) (right : c ∈ tied items size a)
      (equal : ranks h b = ranks h c) : b = c :=
    (ranking h last).ranks.injOn (mem_tied.mp left).1 (mem_tied.mp right).1 equal
  rcases lt_trichotomy (tied items size a).card 2 with few | pair | many
  · exact .inl (by omega)
  · right
    obtain ⟨b, tie, other⟩ := Finset.exists_mem_ne (by omega : 1 < (tied items size a).card) a
    have range := (ranking b tie).mem_Ioc member
    rw [kept b tie a self other.symm, Finset.mem_Ioc] at range
    have different : old a ≠ above items size a + (tied items size a).card := by
      intro equal
      rw [← kept b tie a self other.symm, ← moved b tie] at equal
      exact other (separate tie tie self equal.symm)
    exact ⟨pair, by omega⟩
  · obtain ⟨b, left, c, right, h, last, different, first, second⟩ := Finset.two_lt_card.mp many
    have equal : ranks h b = ranks h c := by
      rw [kept h last b left first, kept h last c right second]
      exact same b left c right
    exact absurd (separate last left right equal) different

/-- A list by falling size: those greater than a given one, those of its size, the smaller ones. -/
theorem eq_append_of_pairwise {list : List A} (sorted : list.Pairwise fun a b => size b ≤ size a) (middle : B) :
    list = (list.filter fun a => middle < size a) ++ (list.filter fun a => size a = middle) ++
      list.filter fun a => size a < middle := by
  induction list with
  | nil => rfl
  | cons a rest ih =>
    obtain ⟨falling, sorted⟩ := List.pairwise_cons.mp sorted
    have none_greater (least : size a ≤ middle) : (rest.filter fun b => middle < size b) = [] := by
      refine List.filter_eq_nil_iff.mpr fun b member => ?_
      simpa using (falling b member).trans least
    have parts := ih sorted
    rcases lt_trichotomy middle (size a) with less | rfl | greater
    · simp only [List.filter_cons, less, less.ne', less.not_gt, decide_true, decide_false, if_true, if_false,
        Bool.false_eq_true, List.cons_append]
      rw [← parts]
    · simp only [none_greater le_rfl, List.nil_append] at parts
      simp only [List.filter_cons, lt_irrefl, decide_true, decide_false, if_true, if_false,
        Bool.false_eq_true, none_greater le_rfl, List.nil_append, List.cons_append]
      rw [← parts]
    · have none_equal : (rest.filter fun b => size b = middle) = [] := by
        refine List.filter_eq_nil_iff.mpr fun b member => ?_
        simpa using ((falling b member).trans_lt greater).ne
      simp only [none_greater greater.le, none_equal, List.nil_append] at parts
      simp only [List.filter_cons, greater, greater.ne, greater.not_gt, decide_true, decide_false, if_true, if_false,
        Bool.false_eq_true, none_greater greater.le, none_equal, List.nil_append]
      rw [← parts]

end Rankings
