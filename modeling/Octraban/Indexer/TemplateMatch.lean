import Octraban.Core.Placement
import Octraban.Indexer.WasmDecompiler

/-! matchVulnerableTemplates of wasm-decompiler.ts: a scan for the opcodes of a template in a decoded sequence. -/
namespace Octraban.Wasm

structure VulnerableTemplate where
  id : String
  description : String
  opcodeSequence : List String
  maxGap : Option ℕ

structure VulnerabilityMatch where
  templateId : String
  description : String
  matchOffset : ℕ

/-- As buildOpcodeIndex makes it. -/
def indexOf (sequence : List String) : OpcodeIndex :=
  ⟨sequence.dedup.mergeSort, sequence.length, sequence.count, sequence⟩

/-- Where the window of the scan starts: at the index itself, while nothing is found. -/
def windowAt (i patternIdx windowStart : ℕ) : ℕ := if patternIdx = 0 then i else windowStart

/-- The scan for two opcodes or more, from the index `i` on, with `patternIdx` of them found since
`windowStart`. A window that is given up is left for the one after it. -/
def scanWindows (seq pattern : List String) (maxGap i patternIdx windowStart : ℕ) : Option ℕ :=
  if i < seq.length then
    if seq[i]? = pattern[patternIdx]? then
      if patternIdx + 1 = pattern.length then some (windowAt i patternIdx windowStart)
      else scanWindows seq pattern maxGap (i + 1) (patternIdx + 1) (windowAt i patternIdx windowStart)
    else if 0 < patternIdx ∧ maxGap < i - windowStart - patternIdx then
      scanWindows seq pattern maxGap (windowStart + 1) 0 windowStart
    else scanWindows seq pattern maxGap (i + 1) patternIdx windowStart
  else none
termination_by (seq.length - windowAt i patternIdx windowStart, seq.length - i)
decreasing_by
  all_goals rw [Prod.lex_def]
  · -- the window stays, or starts here
    exact .inr ⟨rfl, by omega⟩
  · -- the next window starts after this one
    refine .inl ?_
    simp only [windowAt, if_true, if_neg (show patternIdx ≠ 0 by omega)]
    omega
  · by_cases none : patternIdx = 0
    · refine .inl ?_
      simp only [windowAt, if_pos none]
      omega
    · refine .inr ⟨?_, by omega⟩
      simp only [windowAt, if_neg none]

def matchTemplate (index : OpcodeIndex) (template : VulnerableTemplate) : Option VulnerabilityMatch :=
  let found (offset : ℕ) : VulnerabilityMatch := ⟨template.id, template.description, offset⟩
  match template.opcodeSequence with
  | [] => none
  | [opcode] =>
    if 0 < index.frequency opcode then some (found (index.sequence.idxOf opcode)) else none
  | pattern => (scanWindows index.sequence pattern (template.maxGap.getD 0) 0 0 0).map found

def matchVulnerableTemplates (index : OpcodeIndex) (templates : List VulnerableTemplate) : List VulnerabilityMatch :=
  templates.filterMap (matchTemplate index)

variable {seq pattern text : List String} {maxGap i patternIdx windowStart : ℕ}

/-! ### The scan -/

/-- The opcodes that are not found yet occur from here on if those after the first do after it. -/
def Greedy (text pattern : List String) (i patternIdx windowStart : ℕ) : Prop :=
  pattern.tail.Sublist (text.drop (windowStart + 1)) ↔ (pattern.drop patternIdx).Sublist (text.drop i)

theorem Greedy.found (greedy : Greedy text pattern i patternIdx windowStart) (unfinished : patternIdx < pattern.length)
    (same : text[i]? = pattern[patternIdx]?) : Greedy text pattern (i + 1) (patternIdx + 1) windowStart := by
  rw [List.getElem?_eq_getElem unfinished] at same
  obtain ⟨inside, same⟩ := List.getElem?_eq_some_iff.mp same
  refine Iff.trans greedy ?_
  rw [List.drop_eq_getElem_cons unfinished, List.drop_eq_getElem_cons inside, same]
  exact List.cons_sublist_cons

theorem Greedy.missed (greedy : Greedy text pattern i patternIdx windowStart) (unfinished : patternIdx < pattern.length)
    (other : text[i]? ≠ pattern[patternIdx]?) : Greedy text pattern (i + 1) patternIdx windowStart := by
  refine Iff.trans greedy ⟨fun sublist => ?_, fun sublist => ?_⟩
  · by_cases inside : i < text.length
    · rw [List.drop_eq_getElem_cons unfinished, List.drop_eq_getElem_cons inside] at sublist
      rw [List.getElem?_eq_getElem unfinished, List.getElem?_eq_getElem inside] at other
      rw [List.drop_eq_getElem_cons unfinished]
      refine (List.sublist_cons_iff.mp sublist).resolve_right ?_
      rintro ⟨rest, same, -⟩
      exact other (congrArg some (List.cons.inj same).1.symm)
    · rw [List.drop_eq_nil_of_le (not_lt.mp inside)] at sublist
      exact sublist.trans (List.nil_sublist _)
  · exact sublist.trans (List.drop_sublist_drop_left text (Nat.le_succ i))

/-- The first index past what a window may reach: as many opcodes as the template has and one more than its gap. -/
def windowEnd (pattern : List String) (maxGap windowStart : ℕ) : ℕ := windowStart + pattern.length + maxGap + 1

def Fits (seq pattern : List String) (maxGap windowStart : ℕ) : Prop :=
  seq[windowStart]? = pattern[0]? ∧
    pattern.tail.Sublist ((seq.take (windowEnd pattern maxGap windowStart)).drop (windowStart + 1))

/-- A window in which opcodes are found: it skipped no more than one opcode more than the gap. -/
structure Open (seq pattern : List String) (maxGap i patternIdx windowStart : ℕ) : Prop where
  begun : patternIdx ≠ 0
  unfinished : patternIdx < pattern.length
  counted : windowStart + patternIdx ≤ i
  small : i ≤ windowStart + patternIdx + maxGap + 1
  head : seq[windowStart]? = pattern[0]?
  near : Greedy (seq.take (windowEnd pattern maxGap windowStart)) pattern i patternIdx windowStart
  far : Greedy seq pattern i patternIdx windowStart

theorem Open.getElem_take (opened : Open seq pattern maxGap i patternIdx windowStart) :
    (seq.take (windowEnd pattern maxGap windowStart))[i]? = seq[i]? := by
  have unfinished := opened.unfinished
  have small := opened.small
  refine List.getElem?_take_of_lt ?_
  unfold windowEnd
  omega

theorem Open.start (more : 1 < pattern.length) (same : seq[i]? = pattern[0]?) : Open seq pattern maxGap (i + 1) 1 i where
  begun := Nat.one_ne_zero
  unfinished := more
  counted := le_rfl
  small := by omega
  head := same
  near := by rw [Greedy, List.drop_one]
  far := by rw [Greedy, List.drop_one]

theorem Open.found (opened : Open seq pattern maxGap i patternIdx windowStart) (more : patternIdx + 1 < pattern.length)
    (same : seq[i]? = pattern[patternIdx]?) : Open seq pattern maxGap (i + 1) (patternIdx + 1) windowStart where
  begun := Nat.succ_ne_zero _
  unfinished := more
  counted := Nat.succ_le_succ opened.counted
  small := by have small := opened.small; omega
  head := opened.head
  near := opened.near.found opened.unfinished (opened.getElem_take.trans same)
  far := opened.far.found opened.unfinished same

theorem Open.missed (opened : Open seq pattern maxGap i patternIdx windowStart)
    (kept : i - windowStart - patternIdx ≤ maxGap) (other : seq[i]? ≠ pattern[patternIdx]?) :
    Open seq pattern maxGap (i + 1) patternIdx windowStart where
  begun := opened.begun
  unfinished := opened.unfinished
  counted := Nat.le_succ_of_le opened.counted
  small := by omega
  head := opened.head
  near := opened.near.missed opened.unfinished (opened.getElem_take ▸ other)
  far := opened.far.missed opened.unfinished other

theorem Open.fits (opened : Open seq pattern maxGap i patternIdx windowStart)
    (last : patternIdx + 1 = pattern.length) (same : seq[i]? = pattern[patternIdx]?) :
    Fits seq pattern maxGap windowStart := by
  refine ⟨opened.head, (opened.near.found opened.unfinished (opened.getElem_take.trans same)).mpr ?_⟩
  rw [last, List.drop_length]
  exact List.nil_sublist _

/-- A window that is given up has no room left for the opcodes that are not found. -/
theorem Open.not_fits (opened : Open seq pattern maxGap i patternIdx windowStart)
    (wide : maxGap < i - windowStart - patternIdx) (other : seq[i]? ≠ pattern[patternIdx]?) :
    ¬ Fits seq pattern maxGap windowStart := by
  rintro ⟨-, sublist⟩
  have fewer := ((opened.near.missed opened.unfinished (opened.getElem_take ▸ other)).mp sublist).length_le
  have unfinished := opened.unfinished
  simp only [List.length_drop, List.length_take, windowEnd] at fewer
  omega

/-- At the end no later window fits either: this one would have been completed first. -/
theorem Open.none_later (opened : Open seq pattern maxGap i patternIdx windowStart) (ended : seq.length ≤ i)
    {start : ℕ} (later : windowStart ≤ start) : ¬ Fits seq pattern maxGap start := by
  rintro ⟨-, sublist⟩
  have whole : pattern.tail.Sublist (seq.drop (windowStart + 1)) :=
    (sublist.trans ((List.take_sublist _ seq).drop _)).trans (List.drop_sublist_drop_left seq (Nat.succ_le_succ later))
  have fewer := (opened.far.mp whole).length_le
  have unfinished := opened.unfinished
  simp only [List.length_drop] at fewer
  omega

theorem scanWindows_isSome (two : 1 < pattern.length)
    (invariant : patternIdx = 0 ∨ Open seq pattern maxGap i patternIdx windowStart) :
    (scanWindows seq pattern maxGap i patternIdx windowStart).isSome ↔
      ∃ start, windowAt i patternIdx windowStart ≤ start ∧ Fits seq pattern maxGap start := by
  fun_induction scanWindows seq pattern maxGap i patternIdx windowStart with
  | case1 i patternIdx windowStart inside same last =>
    rcases invariant with rfl | opened
    · omega
    · refine iff_of_true rfl ⟨windowStart, ?_, opened.fits last same⟩
      rw [windowAt, if_neg opened.begun]
  | case2 i patternIdx windowStart inside same more ih =>
    refine ih (.inr ?_)
    rcases invariant with rfl | opened
    · exact Open.start two same
    · rw [windowAt, if_neg opened.begun]
      have unfinished := opened.unfinished
      exact opened.found (by omega) same
  | case3 i patternIdx windowStart inside other wide ih =>
    have opened := invariant.resolve_left wide.1.ne'
    refine (ih (.inl rfl)).trans (exists_congr fun start => and_congr_left fun fits => ?_)
    rw [windowAt, if_pos rfl, windowAt, if_neg opened.begun]
    refine ⟨Nat.le_of_succ_le, fun later => lt_of_le_of_ne later fun same => ?_⟩
    exact opened.not_fits wide.2 other (same ▸ fits)
  | case4 i patternIdx windowStart inside other kept ih =>
    rcases invariant with rfl | opened
    · refine (ih (.inl rfl)).trans (exists_congr fun start => and_congr_left fun fits => ?_)
      rw [windowAt, if_pos rfl, windowAt, if_pos rfl]
      refine ⟨Nat.le_of_succ_le, fun later => lt_of_le_of_ne later fun same => ?_⟩
      exact other (same ▸ fits.1)
    · have kept := not_and.mp kept (Nat.pos_of_ne_zero opened.begun)
      rw [ih (.inr (opened.missed (not_lt.mp kept) other)), windowAt, windowAt, if_neg opened.begun,
        if_neg opened.begun]
  | case5 i patternIdx windowStart ended =>
    refine iff_of_false Bool.false_ne_true ?_
    rintro ⟨start, later, fits⟩
    rcases invariant with rfl | opened
    · rw [windowAt, if_pos rfl] at later
      have head := fits.1
      rw [List.getElem?_eq_none ((not_lt.mp ended).trans later), List.getElem?_eq_getElem (Nat.zero_lt_of_lt two)] at head
      cases head
    · rw [windowAt, if_neg opened.begun] at later
      exact opened.none_later (not_lt.mp ended) later fits

/-! ### What is reported -/

/-- Where the documentation reports a template: with a gap that is small enough after each opcode. -/
def Documented (sequence : List String) (template : VulnerableTemplate) : Prop :=
  ∃ p : Placement sequence template.opcodeSequence, ∀ gap ∈ p.gaps, gap ≤ template.maxGap.getD 0

theorem templateId_matchTemplate (index : OpcodeIndex) (template : VulnerableTemplate) :
    (matchTemplate index template).map VulnerabilityMatch.templateId =
      if (matchTemplate index template).isSome then some template.id else none := by
  unfold matchTemplate
  dsimp only
  split
  · rfl
  · split <;> rfl
  · cases scanWindows index.sequence template.opcodeSequence (template.maxGap.getD 0) 0 0 0 <;> rfl

/-- What is reported: the gaps add up to one more than the bound at most. -/
theorem matchTemplate_isSome (sequence : List String) (template : VulnerableTemplate)
    (nonempty : template.opcodeSequence ≠ []) : (matchTemplate (indexOf sequence) template).isSome ↔
      ∃ p : Placement sequence template.opcodeSequence, p.gaps.sum ≤ template.maxGap.getD 0 + 1 := by
  obtain ⟨opcode, rest, shape⟩ := List.exists_cons_of_ne_nil nonempty
  rw [shape, Placement.exists_sum_le_iff]
  unfold matchTemplate
  rw [shape]
  cases rest with
  | nil =>
    dsimp only
    by_cases present : 0 < (indexOf sequence).frequency opcode
    · obtain ⟨start, here⟩ := List.mem_iff_getElem?.mp (List.count_pos_iff.mp present)
      rw [if_pos present]
      exact iff_of_true rfl ⟨start, here, List.nil_sublist _⟩
    · rw [if_neg present]
      refine iff_of_false Bool.false_ne_true ?_
      rintro ⟨start, here, -⟩
      exact present (List.count_pos_iff.mpr (List.mem_iff_getElem?.mpr ⟨start, here⟩))
  | cons second rest =>
    dsimp only [indexOf]
    rw [Option.isSome_map, scanWindows_isSome (by simp) (.inl rfl)]
    refine exists_congr fun start => ?_
    have reach : windowEnd (opcode :: second :: rest) (template.maxGap.getD 0) start =
        start + 1 + (second :: rest).length + (template.maxGap.getD 0 + 1) := by
      rw [windowEnd, List.length_cons]
      omega
    rw [Fits, reach]
    exact and_iff_right (Nat.zero_le start)

/-- Opcode by opcode in a row, but for one gap that is by one too wide. -/
def OneTooWide (sequence : List String) (template : VulnerableTemplate) : Prop :=
  ∃ p : Placement sequence template.opcodeSequence,
    template.maxGap.getD 0 + 1 ∈ p.gaps ∧ p.gaps.sum = template.maxGap.getD 0 + 1

/-- Gaps that come to one more than the bound are within it, but for one of just that width. -/
theorem within_or_one {gaps : List ℕ} {bound : ℕ} (small : gaps.sum ≤ bound + 1) :
    (∀ gap ∈ gaps, gap ≤ bound) ∨ bound + 1 ∈ gaps ∧ gaps.sum = bound + 1 := by
  by_cases within : ∀ gap ∈ gaps, gap ≤ bound
  · exact .inl within
  · obtain ⟨gap, member, wide⟩ : ∃ gap ∈ gaps, bound < gap := by simpa using within
    have part := List.le_sum_of_mem member
    have same : gap = bound + 1 := by omega
    exact .inr ⟨same ▸ member, by omega⟩

/-- Every template is told apart from the others. It is reported where the documentation says exactly where
the sequence with one gap too wide has another with none, and what has none has all gaps small together. -/
theorem templates_exact_iff (sequence : List String) :
    (∀ templates, (matchVulnerableTemplates (indexOf sequence) templates).map VulnerabilityMatch.templateId =
      (templates.filter fun template => (matchTemplate (indexOf sequence) template).isSome).map VulnerableTemplate.id) ∧
    ∀ template : VulnerableTemplate, template.opcodeSequence ≠ [] →
      (((matchTemplate (indexOf sequence) template).isSome ↔ Documented sequence template) ↔
        (OneTooWide sequence template → Documented sequence template) ∧
        (Documented sequence template →
          ∃ p : Placement sequence template.opcodeSequence, p.gaps.sum ≤ template.maxGap.getD 0 + 1)) := by
  constructor
  · intro templates
    rw [matchVulnerableTemplates]
    induction templates with
    | nil => rfl
    | cons template rest ih =>
      have named := templateId_matchTemplate (indexOf sequence) template
      cases found : matchTemplate (indexOf sequence) template with
      | none =>
        rw [List.filterMap_cons_none found, List.filter_cons_of_neg (by rw [found]; exact Bool.false_ne_true), ih]
      | some found' =>
        rw [found] at named
        rw [List.filterMap_cons_some found, List.filter_cons_of_pos (by rw [found]; rfl), List.map_cons, List.map_cons, ih,
          Option.some.inj named]
  · intro template nonempty
    rw [matchTemplate_isSome sequence template nonempty]
    constructor
    · intro exact
      refine ⟨?_, exact.mpr⟩
      rintro ⟨p, -, same⟩
      exact exact.mp ⟨p, same.le⟩
    · rintro ⟨narrow, close⟩
      refine ⟨?_, close⟩
      rintro ⟨p, small⟩
      rcases within_or_one small with within | wide
      · exact ⟨p, within⟩
      · exact narrow ⟨p, wide⟩

/-- A template of the source. -/
def adminDrain : VulnerableTemplate where
  id := "admin-drain"
  description := "Admin-drain function: unrestricted global state read followed by an unconditional transfer call"
  opcodeSequence := ["global.get", "call", "return"]
  maxGap := some 3

def drained : List String :=
  ["global.get", "i32.add", "i32.add", "i32.add", "call", "i32.add", "i32.add", "i32.add", "return"]

def strict : VulnerableTemplate := ⟨"strict", "", ["global.get", "call"], none⟩

/-- Twice three opcodes in between are missed, and one opcode in between is not noticed. -/
theorem gaps_accumulate :
    (Documented drained adminDrain ∧ ¬ (matchTemplate (indexOf drained) adminDrain).isSome) ∧
    (matchTemplate (indexOf ["global.get", "drop", "call"]) strict).isSome ∧
      ¬ Documented ["global.get", "drop", "call"] strict := by
  refine ⟨⟨⟨⟨[0, 4, 8], by decide, by decide⟩, by decide⟩, ?_⟩, ?_, ?_⟩
  · rw [matchTemplate_isSome _ _ (List.cons_ne_nil _ _), adminDrain, Placement.exists_sum_le_iff]
    rintro ⟨start, here, sublist⟩
    have only : ∀ start < 9, drained[start]? = some "global.get" →
        ¬ ["call", "return"].Sublist ((drained.take (start + 1 + 2 + 4)).drop (start + 1)) := by decide
    exact only start (List.getElem?_eq_some_iff.mp here).1 here sublist
  · exact (matchTemplate_isSome _ _ (List.cons_ne_nil _ _)).mpr ⟨⟨[0, 2], by decide, by decide⟩, by decide⟩
  · rintro ⟨⟨positions, increasing, symbols⟩, within⟩
    obtain ⟨i, j, rfl⟩ := List.length_eq_two.mp (by simpa [strict] using congrArg List.length symbols)
    have less : i < j := (List.pairwise_cons.mp increasing).1 j List.mem_cons_self
    have near : j - i - 1 ≤ 0 := within _ List.mem_cons_self
    obtain ⟨first, rest⟩ := List.cons.inj symbols
    obtain ⟨second, -⟩ := List.cons.inj rest
    have apart : ∀ i < 3, ["global.get", "drop", "call"][i]? = some "global.get" →
        ["global.get", "drop", "call"][i + 1]? ≠ some "call" := by decide
    refine apart i (List.getElem?_eq_some_iff.mp first).1 first ?_
    rw [show i + 1 = j by omega]
    exact second

end Octraban.Wasm
