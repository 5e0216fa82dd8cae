import Mathlib.Algebra.BigOperators.Group.List.Basic
import Mathlib.Data.List.Induction
import Mathlib.Data.List.Nodup
import Mathlib.Tactic.Abel

/-! Sets and maps that keep the order in which their elements and keys were first put in. -/
namespace Ordered
variable {α : Type*} [DecidableEq α]

def add (set : List α) (x : α) : List α := if x ∈ set then set else set ++ [x]

/-- The elements of a list in the order of their first occurrence. -/
def ofList (elements : List α) : List α := elements.foldl add []

variable {set elements : List α} {x y : α}

@[simp] theorem mem_add : y ∈ add set x ↔ y ∈ set ∨ y = x := by
  rw [add]
  split
  · rename_i known
    exact ⟨.inl, fun member => member.elim id fun same => same ▸ known⟩
  · simp

theorem nodup_add (nodup : set.Nodup) : (add set x).Nodup := by
  rw [add]
  split
  · exact nodup
  · rename_i fresh
    exact nodup.append (List.nodup_singleton x) (List.disjoint_singleton.mpr fresh)

theorem mem_foldl_add : x ∈ elements.foldl add set ↔ x ∈ set ∨ x ∈ elements := by
  induction elements generalizing set with
  | nil => simp
  | cons element elements ih => rw [List.foldl_cons, ih, mem_add, List.mem_cons, or_assoc]

@[simp] theorem mem_ofList : x ∈ ofList elements ↔ x ∈ elements := by
  simp [ofList, mem_foldl_add]

theorem foldl_add_of_subset (known : ∀ x ∈ elements, x ∈ set) : elements.foldl add set = set := by
  induction elements with
  | nil => rfl
  | cons element elements ih =>
    have same : add set element = set := if_pos (known element List.mem_cons_self)
    rw [List.foldl_cons, same, ih fun x member => known x (List.mem_cons_of_mem _ member)]

theorem foldl_add_of_nodup (nodup : (set ++ elements).Nodup) : elements.foldl add set = set ++ elements := by
  induction elements generalizing set with
  | nil => simp
  | cons element elements ih =>
    have fresh : element ∉ set := by
      intro member
      exact (List.disjoint_of_nodup_append nodup) member List.mem_cons_self
    have appended : add set element = set ++ [element] := if_neg fresh
    rw [List.foldl_cons, appended, ih (by simpa using nodup)]
    simp

theorem nodup_foldl_add (nodup : set.Nodup) : (elements.foldl add set).Nodup := by
  induction elements generalizing set with
  | nil => exact nodup
  | cons element elements ih => exact ih (nodup_add nodup)

theorem nodup_ofList : (ofList elements).Nodup := nodup_foldl_add List.nodup_nil

theorem foldl_add_prefix (set elements : List α) : ∃ later, elements.foldl add set = set ++ later := by
  induction elements generalizing set with
  | nil => exact ⟨[], (List.append_nil set).symm⟩
  | cons element elements ih =>
    obtain ⟨later, grown⟩ := ih (add set element)
    rw [List.foldl_cons, grown, add]
    split
    · exact ⟨later, rfl⟩
    · exact ⟨element :: later, List.append_assoc ..⟩

/-- An element that comes for the first time follows all that came before it. -/
theorem ofList_split (rest : List α) (fresh : x ∉ elements) :
    ∃ later, ofList (elements ++ x :: rest) = ofList elements ++ x :: later := by
  have added : add (ofList elements) x = ofList elements ++ [x] := if_neg fun member => fresh (mem_ofList.mp member)
  obtain ⟨later, grown⟩ := foldl_add_prefix (ofList elements ++ [x]) rest
  refine ⟨later, ?_⟩
  rw [ofList] at added grown ⊢
  rw [List.foldl_append, List.foldl_cons, added, grown, List.append_assoc]
  rfl

/-- Where no element comes back after another one, the last to come for the first time is the last. -/
theorem getLast_ofList (together : ∀ x y, x ≠ y → ¬ [x, y, x].Sublist elements) :
    (ofList elements).getLast? = elements.getLast? := by
  induction elements using List.reverseRecOn with
  | nil => rfl
  | append_singleton elements x ih =>
    have added : ofList (elements ++ [x]) = add (ofList elements) x := by
      simp only [ofList]
      rw [List.foldl_append, List.foldl_cons, List.foldl_nil]
    have earlier := ih fun a b different again => together a b different (again.trans (List.sublist_append_left _ _))
    rw [added, List.getLast?_concat]
    by_cases known : x ∈ elements
    · rw [add, if_pos (mem_ofList.mpr known), earlier]
      obtain ⟨front, y, rfl⟩ := (List.eq_nil_or_concat' elements).resolve_left (List.ne_nil_of_mem known)
      rw [List.getLast?_concat]
      by_contra different
      have before : x ∈ front := by simpa [Ne.symm (mt (congrArg some) different)] using known
      have again : [x, y, x].Sublist (front ++ [y] ++ [x]) := by
        rw [List.append_assoc]
        exact (List.singleton_sublist.mpr before).append (List.Sublist.refl [y, x])
      exact together x y (fun same => different (same ▸ rfl)) again
    · rw [add, if_neg fun member => known (mem_ofList.mp member), List.getLast?_concat]

theorem ofList_of_nodup (nodup : elements.Nodup) : ofList elements = elements :=
  foldl_add_of_nodup nodup

/-- The elements stand in the order of their last uses. -/
def ByUse (used : α → Nat) (order : List α) : Prop := order.Pairwise fun x y => used x < used y

variable {used later : α → Nat} {order : List α}

omit [DecidableEq α] in
theorem ByUse.congr (byUse : ByUse used order) (same : ∀ x ∈ order, later x = used x) : ByUse later order :=
  List.Pairwise.imp_of_mem (fun left right before => by rwa [same _ left, same _ right]) byUse

/-- An element that is used goes to the end. -/
theorem ByUse.touch (byUse : ByUse used order) (same : ∀ y ∈ order, y ≠ x → later y = used y)
    (last : ∀ y ∈ order, used y < later x) : ByUse later (order.filter (· ≠ x) ++ [x]) := by
  apply List.pairwise_append.mpr
  refine ⟨?_, List.pairwise_singleton _ x, ?_⟩
  · apply ByUse.congr (List.Pairwise.filter _ byUse)
    intro y member
    obtain ⟨present, other⟩ := List.mem_filter.mp member
    exact same y present (by simpa using other)
  · intro y member z atEnd
    obtain ⟨present, other⟩ := List.mem_filter.mp member
    rw [List.mem_singleton.mp atEnd, same y present (by simpa using other)]
    exact last y present

omit [DecidableEq α] in
/-- The first element is the one whose last use is the longest ago. -/
theorem ByUse.head_iff (byUse : ByUse used order) :
    order.head? = some x ↔ x ∈ order ∧ ∀ y ∈ order, y ≠ x → used x < used y := by
  have least {first : α} (starts : order.head? = some first) : ∀ y ∈ order, y ≠ first → used first < used y := by
    obtain ⟨rest, rfl⟩ := List.head?_eq_some_iff.mp starts
    intro y member other
    exact (List.pairwise_cons.mp byUse).1 y ((List.mem_cons.mp member).resolve_left other)
  constructor
  · exact fun starts => ⟨List.mem_of_mem_head? starts, least starts⟩
  · intro ⟨member, oldest⟩
    cases starts : order.head? with
    | none => simp [List.head?_eq_none_iff.mp starts] at member
    | some first =>
      by_contra other
      have different : first ≠ x := fun same => other (congrArg some same)
      have after := oldest first (List.mem_of_mem_head? starts) different
      exact absurd (least starts x member different.symm) (Nat.lt_asymm after)

end Ordered

structure OrderedMap (K V : Type*) where
  entries : List (K × V)
  nodup : (entries.map Prod.fst).Nodup

namespace OrderedMap
open Ordered

variable {K V : Type*} [DecidableEq K]

/-- A known key keeps its place, a new one comes last. -/
def put (k : K) (v : V) : List (K × V) → List (K × V)
  | [] => [(k, v)]
  | entry :: rest => if entry.1 = k then (k, v) :: rest else entry :: put k v rest

theorem keys_put (k : K) (v : V) (entries : List (K × V)) :
    (put k v entries).map Prod.fst = add (entries.map Prod.fst) k := by
  induction entries with
  | nil => rfl
  | cons entry rest ih =>
    rw [put]
    by_cases same : entry.1 = k
    · simp [same, add]
    · have other : ¬ k = entry.1 := fun eq => same eq.symm
      rw [if_neg same, List.map_cons, List.map_cons, ih]
      simp only [add]
      simp only [List.mem_cons, other, false_or]
      split <;> rfl

def find (k : K) (entries : List (K × V)) : Option V := (entries.find? fun entry => entry.1 = k).map Prod.snd

theorem find_put_self (k : K) (v : V) (entries : List (K × V)) : find k (put k v entries) = some v := by
  rw [find]
  induction entries with
  | nil => simp [put]
  | cons entry rest ih =>
    rw [put]
    by_cases same : entry.1 = k
    · simp [same]
    · simpa [same] using ih

theorem find_put_ne {j k : K} (other : j ≠ k) (v : V) (entries : List (K × V)) :
    find j (put k v entries) = find j entries := by
  simp only [find]
  induction entries with
  | nil => simp [put, other.symm]
  | cons entry rest ih =>
    rw [put]
    by_cases same : entry.1 = k
    · simp [same, other.symm]
    · rw [if_neg same]
      by_cases found : entry.1 = j
      · simp [found]
      · simpa [found] using ih

theorem mem_iff_find {entries : List (K × V)} (nodup : (entries.map Prod.fst).Nodup) {k : K} {v : V} :
    (k, v) ∈ entries ↔ find k entries = some v := by
  rw [find]
  induction entries with
  | nil => simp
  | cons entry rest ih =>
    obtain ⟨fresh, nodup⟩ := List.nodup_cons.mp nodup
    rw [List.mem_cons, ih nodup]
    by_cases same : entry.1 = k
    · have absent : rest.find? (fun entry => entry.1 = k) = none := by
        rw [List.find?_eq_none]
        intro other member found
        exact fresh (List.mem_map.mpr ⟨other, member, (of_decide_eq_true found).trans same.symm⟩)
      rw [absent, List.find?_cons_of_pos (by simpa using same)]
      obtain ⟨k', v'⟩ := entry
      subst same
      simp [eq_comm]
    · rw [List.find?_cons_of_neg (by simpa using same)]
      constructor
      · rintro (rfl | found)
        · exact absurd rfl same
        · exact found
      · exact .inr

def keys (m : OrderedMap K V) : List K := m.entries.map Prod.fst

def get (m : OrderedMap K V) (k : K) : Option V := find k m.entries

def empty : OrderedMap K V := ⟨[], List.nodup_nil⟩

def set (m : OrderedMap K V) (k : K) (v : V) : OrderedMap K V where
  entries := put k v m.entries
  nodup := keys_put k v m.entries ▸ nodup_add m.nodup

def erase (m : OrderedMap K V) (k : K) : OrderedMap K V where
  entries := m.entries.filter fun entry => entry.1 ≠ k
  nodup := m.nodup.sublist (List.filter_sublist.map Prod.fst)

/-- `m.set(k, f(m.get(k) ?? default))` -/
def update (m : OrderedMap K V) (k : K) (default : V) (f : V → V) : OrderedMap K V :=
  m.set k (f ((m.get k).getD default))

variable {m : OrderedMap K V} {j k : K} {v default : V} {f : V → V}

@[simp] theorem keys_set : (m.set k v).keys = add m.keys k := keys_put k v m.entries

omit [DecidableEq K] in
theorem nodup_keys (m : OrderedMap K V) : m.keys.Nodup := m.nodup

theorem keys_erase : (m.erase k).keys = m.keys.filter (· ≠ k) := by
  simp only [keys, erase, List.filter_map]
  rfl

/-- A key that is taken out and put in again comes last. -/
theorem keys_set_erase : ((m.erase k).set k v).keys = m.keys.filter (· ≠ k) ++ [k] := by
  rw [keys_set, keys_erase, add, if_neg (by simp)]

theorem get_set_self : (m.set k v).get k = some v := find_put_self k v m.entries

theorem get_set_ne (other : j ≠ k) : (m.set k v).get j = m.get j := find_put_ne other v m.entries

theorem mem_entries : (k, v) ∈ m.entries ↔ m.get k = some v := mem_iff_find m.nodup

theorem forall_mem_set {P : K × V → Prop} :
    (∀ entry ∈ (m.set k v).entries, P entry) ↔ P (k, v) ∧ ∀ entry ∈ m.entries, entry.1 ≠ k → P entry := by
  constructor
  · intro each
    refine ⟨each _ (mem_entries.mpr get_set_self), fun entry member other => each entry ?_⟩
    exact mem_entries.mpr ((get_set_ne other).trans (mem_entries.mp member))
  · rintro ⟨new, old⟩ ⟨j, w⟩ member
    have found := mem_entries.mp member
    by_cases same : j = k
    · rw [same, get_set_self] at found
      rw [same, ← Option.some.inj found]
      exact new
    · rw [get_set_ne same] at found
      exact old (j, w) (mem_entries.mpr found) same

/-- A new key comes last. -/
theorem entries_set_of_fresh (fresh : k ∉ m.keys) : (m.set k v).entries = m.entries ++ [(k, v)] := by
  have put_last (entries : List (K × V)) (fresh : k ∉ entries.map Prod.fst) : put k v entries = entries ++ [(k, v)] := by
    induction entries with
    | nil => rfl
    | cons entry rest ih =>
      rw [List.map_cons, List.mem_cons, not_or] at fresh
      rw [put, if_neg (Ne.symm fresh.1), ih fresh.2, List.cons_append]
  exact put_last m.entries fresh

theorem get_erase : (m.erase k).get j = if j = k then none else m.get j := by
  refine Option.ext fun v => ?_
  rw [← mem_entries]
  by_cases same : j = k
  · simp [erase, same]
  · simp [erase, same, mem_entries]

/-- What a key held is replaced in the sum of all. -/
theorem sum_put [AddCommGroup V] (k : K) (v : V) (entries : List (K × V)) :
    ((put k v entries).map Prod.snd).sum = (entries.map Prod.snd).sum - (find k entries).getD 0 + v := by
  rw [find]
  induction entries with
  | nil => simp [put]
  | cons entry rest ih =>
    rw [put]
    by_cases same : entry.1 = k
    · simp [same, add_comm]
    · rw [if_neg same, List.map_cons, List.sum_cons, ih, List.find?_cons_of_neg (by simpa using same),
        List.map_cons, List.sum_cons]
      abel

theorem sum_set [AddCommGroup V] (m : OrderedMap K V) (k : K) (v : V) :
    ((m.set k v).entries.map Prod.snd).sum = (m.entries.map Prod.snd).sum - (m.get k).getD 0 + v :=
  sum_put k v m.entries

theorem isSome_get : (m.get k).isSome ↔ k ∈ m.keys := by
  rw [Option.isSome_iff_exists]
  rw [keys]
  simp only [← mem_entries, List.mem_map, Prod.exists, exists_and_right, exists_eq_right]

theorem getD_update : ((m.update k default f).get j).getD default =
    if j = k then f ((m.get j).getD default) else (m.get j).getD default := by
  rw [update]
  split
  · rename_i same
    rw [same, get_set_self]
    rfl
  · rename_i other
    rw [get_set_ne other]

variable {E : Type*} {key : E → K} {change : E → V → V}

/-- Every key has the default, stored or not. -/
def Blank (default : V) (m : OrderedMap K V) : Prop := ∀ k, (m.get k).getD default = default

theorem blank_empty : Blank default (empty : OrderedMap K V) := fun _ => rfl

theorem Blank.set (blank : Blank default m) (k : K) : Blank default (m.set k default) := by
  intro j
  by_cases same : j = k
  · rw [same, get_set_self]
    rfl
  · rw [get_set_ne same]
    exact blank j

/-- Each key collects the changes of its own elements, in their order. -/
theorem getD_foldl_update (elements : List E) :
    ((elements.foldl (fun m e => m.update (key e) default (change e)) m).get k).getD default =
      (elements.filter fun e => key e = k).foldl (fun v e => change e v) ((m.get k).getD default) := by
  induction elements generalizing m with
  | nil => rfl
  | cons e elements ih =>
    rw [List.foldl_cons, ih, getD_update]
    by_cases same : key e = k
    · simp [same]
    · simp [same, Ne.symm same]

theorem getD_foldl_count (elements : List E) :
    ((elements.foldl (fun m e => m.update (key e) 0 (· + 1)) (empty : OrderedMap K Nat)).get k).getD 0 =
      (elements.filter fun e => key e = k).length := by
  have counted (start : Nat) (chosen : List E) : chosen.foldl (fun n _ => n + 1) start = start + chosen.length := by
    induction chosen generalizing start with
    | nil => rfl
    | cons _ rest ih =>
      rw [List.foldl_cons, ih, List.length_cons]
      omega
  rw [getD_foldl_update, counted]
  exact Nat.zero_add _

/-- What a key holds after a run of elements that are merged into it one by one. -/
theorem get_foldl_merge {merge : E → Option V → V} (elements : List E) :
    (elements.foldl (fun m e => m.set (key e) (merge e (m.get (key e)))) m).get k =
      (elements.filter fun e => key e = k).foldl (fun v e => some (merge e v)) (m.get k) := by
  induction elements generalizing m with
  | nil => rfl
  | cons e elements ih =>
    rw [List.foldl_cons, ih]
    by_cases same : key e = k
    · subst same
      rw [get_set_self, List.filter_cons_of_pos (by simp), List.foldl_cons]
    · rw [get_set_ne (Ne.symm same), List.filter_cons_of_neg (by simpa using same)]

theorem keys_foldl_update (elements : List E) :
    (elements.foldl (fun m e => m.update (key e) default (change e)) m).keys =
      (elements.map key).foldl add m.keys := by
  induction elements generalizing m with
  | nil => rfl
  | cons e elements ih => rw [List.foldl_cons, ih, update, keys_set, List.map_cons, List.foldl_cons]

/-- Grouped by their keys, the elements of each key are in their order. -/
theorem mem_groups {elements group : List E} :
    (k, group) ∈ (elements.foldl (fun m e => m.update (key e) [] (· ++ [e])) (empty : OrderedMap K (List E))).entries ↔
      k ∈ elements.map key ∧ group = elements.filter fun e => key e = k := by
  have collected : ((elements.foldl (fun m e => m.update (key e) [] (· ++ [e]))
      (empty : OrderedMap K (List E))).get k).getD [] = elements.filter fun e => key e = k := by
    rw [getD_foldl_update, List.foldl_append_eq_append]
    exact List.flatMap_singleton' _
  have known : k ∈ (elements.foldl (fun m e => m.update (key e) [] (· ++ [e])) (empty : OrderedMap K (List E))).keys ↔
      k ∈ elements.map key := by
    rw [keys_foldl_update]
    exact Ordered.mem_ofList
  rw [mem_entries, ← known, ← isSome_get, ← collected]
  cases (elements.foldl (fun m e => m.update (key e) [] (· ++ [e])) (empty : OrderedMap K (List E))).get k with
  | none => simp
  | some stored => simp [eq_comm]

end OrderedMap
