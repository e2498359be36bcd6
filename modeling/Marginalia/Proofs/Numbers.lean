import Marginalia.Proofs.Report
import Mathlib.Logic.Relation

/-!
# The numbers of a report

What happens to a report is a `Move`: a jump, a note, a numbered line, or a change that leaves the
numbering alone. Only a numbered line adds a number, and only a jump can take the cursor back. Where
none does, the numbers go up and the cursor stays ahead of them (`Report.Ascending`).

Results:
* `Report.numbers_addLine`, `Report.numbers_jump`: the numbers after a move.
* `Report.Ascending.of_moves`: numbers go up as long as there is no warning.
-/

namespace Marginalia

/-- The number that a line shows. -/
def Line.number? (l : Line) : Option Int := if l.numbered then some l.number else none

namespace Report

variable {r r' : Report Line}

/-- The numbers that a report shows, from top to bottom. -/
def numbers (r : Report Line) : List Int := r.blocks.filterMap Line.number?

/-- Settings may change and what the blocks hold, but not the numbers and the numbering. -/
structure Keeps (r r' : Report Line) : Prop where
  numbering : r'.numbering = r.numbering
  warnings : r'.warnings = r.warnings
  stamps : r'.blocks.map Line.number? = r.blocks.map Line.number?

/-- What may happen to a report. -/
inductive Move : Report Line → Report Line → Prop
  | jump {r r' : Report Line} {target : Int} {tellSkip : Bool}
    (h : r.jump target tellSkip = .ok r') : Move r r'
  | note (r : Report Line) (l : Line) : Move r (r.addNote l)
  | line (r : Report Line) (l : Line) : Move r (r.addLine l)
  | keep {r r' : Report Line} (h : Keeps r r') : Move r r'

/-! ## The numbers after a move -/

theorem numbers_eq_map_shown (r : Report Line) : r.numbers = r.shown.map (·.number) := by
  unfold numbers shown
  induction r.blocks with
  | nil => rfl
  | cons l rest ih =>
    cases hl : l.numbered <;> simp [Line.number?, hl, ih]

theorem mem_numbers {n : Int} : n ∈ r.numbers ↔ ∃ l ∈ r.shown, l.number = n := by
  rw [numbers_eq_map_shown, List.mem_map]

/-- The first number is that of the first numbered line, or one. -/
theorem firstNumber_eq (r : Report Line) : r.firstNumber = r.numbers.head?.getD 1 := by
  rw [firstNumber, numbers_eq_map_shown, shown, List.head?_map, List.head?_filter]
  cases r.blocks.find? (·.numbered) <;> rfl

theorem firstNumber_mem (h : r.numbers ≠ []) : r.firstNumber ∈ r.numbers := by
  obtain ⟨n, rest, hn⟩ := List.exists_cons_of_ne_nil h
  rw [firstNumber_eq, hn]
  exact List.mem_cons_self

theorem numbers_addNote (l : Line) : (r.addNote l).numbers = r.numbers := by
  simp [numbers, addNote, push, Line.unnumbered, Line.number?]

/-- **A numbered line shows the number that the cursor is at.** -/
theorem numbers_addLine (l : Line) : (r.addLine l).numbers = r.numbers ++ [r.numbering.cursor] := by
  simp [numbers, addLine, pushNumbered, Line.stamped, Line.number?]

theorem Keeps.numbers_eq (h : Keeps r r') : r'.numbers = r.numbers := by
  have hid : ∀ r : Report Line, r.numbers = (r.blocks.map Line.number?).filterMap id :=
    fun r => by rw [List.filterMap_map]; rfl
  rw [hid, hid, h.stamps]

/-- **All that a jump does**: it moves the cursor, to a number that is not negative; it may warn;
and at most it leaves notices behind. -/
theorem jump_eq_ok {target : Int} {tellSkip : Bool} (h : r.jump target tellSkip = .ok r') :
    0 ≤ target ∧ r'.numbering = { r.numbering with cursor := target, started := true } ∧
      r'.warnings = r.warnings ++ (r.numbering.backwards? target).toList ∧
      r'.blocks = r.blocks ++ r.skipNotices target tellSkip := by
  rw [jump] at h
  cases hj : r.numbering.jump target tellSkip with
  | error e =>
    rw [hj] at h
    cases h
  | ok j =>
    rw [hj] at h
    cases h
    obtain ⟨h0, -, rfl⟩ := Numbering.jump_eq_ok_iff.mp hj
    exact ⟨h0, rfl, rfl, rfl⟩

/-- The notices that a jump leaves behind have no number. -/
theorem number?_skipNotices (r : Report Line) (target : Int) (tellSkip : Bool) :
    (r.skipNotices target tellSkip).filterMap Line.number? = [] :=
  List.filterMap_eq_nil_iff.mpr fun l hl => by
    simp [Line.number?, (isNotice_of_mem_skipNotices l hl).1]

theorem numbers_jump {target : Int} {tellSkip : Bool} (h : r.jump target tellSkip = .ok r') :
    r'.numbers = r.numbers := by
  obtain ⟨-, -, -, hblocks⟩ := jump_eq_ok h
  rw [numbers, hblocks, List.filterMap_append, number?_skipNotices, List.append_nil, numbers]

/-- A move never takes a warning back. -/
theorem Move.warnings_eq_nil (h : Move r r') (hquiet : r'.warnings = []) : r.warnings = [] := by
  cases h with
  | jump h =>
    rw [(jump_eq_ok h).2.2.1] at hquiet
    exact (List.append_eq_nil_iff.mp hquiet).1
  | note l => exact hquiet
  | line l => exact hquiet
  | keep h => exact h.warnings ▸ hquiet

/-- **A move that leaves the cursor where it is adds no number.** -/
theorem Move.numbers_eq (h : Move r r') (hcursor : r'.numbering.cursor = r.numbering.cursor) :
    r'.numbers = r.numbers := by
  cases h with
  | jump h => exact numbers_jump h
  | note l => exact numbers_addNote _
  | line l =>
    have hnext : r.numbering.cursor + 1 = r.numbering.cursor := hcursor
    omega
  | keep h => exact h.numbers_eq

/-! ## Numbers that go up -/

/-- The numbers go up, some of them perhaps twice, from zero or more to the latest one, and the
cursor is not behind. -/
structure Ascending (r : Report Line) : Prop where
  cursor : 0 ≤ r.numbering.cursor
  last : r.numbering.last = r.numbers.getLast?
  range : ∀ n ∈ r.numbers, 0 ≤ n ∧ n ≤ r.numbering.cursor
  sorted : r.numbers.Pairwise (· ≤ ·)

theorem ascending_of_numbers_eq (h : r.Ascending) (hnumbering : r'.numbering = r.numbering)
    (hnumbers : r'.numbers = r.numbers) : r'.Ascending where
  cursor := hnumbering ▸ h.cursor
  last := by rw [hnumbering, hnumbers, h.last]
  range := by
    rw [hnumbering, hnumbers]
    exact h.range
  sorted := hnumbers ▸ h.sorted

/-- No number is greater than the latest. -/
theorem Ascending.le_last (h : r.Ascending) {last : Int} (hlast : r.numbering.last = some last) :
    ∀ n ∈ r.numbers, n ≤ last := by
  obtain ⟨before, hnumbers⟩ := List.getLast?_eq_some_iff.mp (h.last ▸ hlast)
  have hsorted := h.sorted
  rw [hnumbers, List.pairwise_append] at hsorted
  intro n hn
  rw [hnumbers] at hn
  rcases List.mem_append.mp hn with hn | hn
  · exact hsorted.2.2 n hn last (List.mem_singleton.mpr rfl)
  · exact Int.le_of_eq (List.mem_singleton.mp hn)

/-- **The last number is the greatest.** -/
theorem Ascending.exists_greatest (h : r.Ascending) {before : List Int} {n : Int}
    (hnumbers : r.numbers = before ++ [n]) :
    ∃ l ∈ r.shown, l.number = n ∧ ∀ l' ∈ r.shown, l'.number ≤ n := by
  have hlast : r.numbering.last = some n := by rw [h.last, hnumbers, List.getLast?_concat]
  have hmem : n ∈ r.numbers := by simp [hnumbers]
  obtain ⟨l, hl, hnumber⟩ := mem_numbers.mp hmem
  exact ⟨l, hl, hnumber, fun l' hl' => h.le_last hlast _ (mem_numbers.mpr ⟨l', hl', rfl⟩)⟩

/-- **No number is less than the first.** -/
theorem Ascending.firstNumber_le (h : r.Ascending) :
    ∀ n ∈ r.numbers, 0 ≤ r.firstNumber ∧ r.firstNumber ≤ n := by
  have hrange := h.range
  have hsorted := h.sorted
  rw [firstNumber_eq]
  cases hnumbers : r.numbers with
  | nil => simp
  | cons first rest =>
    rw [hnumbers] at hrange hsorted
    intro n hn
    refine ⟨(hrange first List.mem_cons_self).1, ?_⟩
    rcases List.mem_cons.mp hn with rfl | hn
    · exact Int.le_refl _
    · exact (List.pairwise_cons.mp hsorted).1 n hn

theorem Ascending.addLine (h : r.Ascending) (l : Line) : (r.addLine l).Ascending where
  cursor := by
    have hcursor := h.cursor
    show 0 ≤ r.numbering.cursor + 1
    omega
  last := by
    rw [numbers_addLine, List.getLast?_concat]
    rfl
  range := by
    intro n hn
    show 0 ≤ n ∧ n ≤ r.numbering.cursor + 1
    have hcursor := h.cursor
    rw [numbers_addLine] at hn
    rcases List.mem_append.mp hn with hn | hn
    · have := h.range n hn
      omega
    · rw [List.mem_singleton.mp hn]
      omega
  sorted := by
    rw [numbers_addLine, List.pairwise_append]
    refine ⟨h.sorted, List.pairwise_singleton _ _, fun n hn m hm => ?_⟩
    rw [List.mem_singleton.mp hm]
    exact (h.range n hn).2

/-- A jump without a warning goes no further back than to the latest number. -/
theorem Ascending.jump (h : r.Ascending) {target : Int} {tellSkip : Bool}
    (hjump : r.jump target tellSkip = .ok r') (hquiet : r'.warnings = []) : r'.Ascending := by
  obtain ⟨htarget, hnumbering, hwarnings, -⟩ := jump_eq_ok hjump
  have hnumbers := numbers_jump hjump
  have hlast : ∀ n ∈ r.numbers, n ≤ target := by
    rw [hwarnings, List.append_eq_nil_iff, Option.toList_eq_nil_iff, Numbering.backwards?] at hquiet
    intro n hn
    cases hsome : r.numbering.last with
    | none =>
      have hnil := List.getLast?_eq_none_iff.mp (h.last ▸ hsome)
      rw [hnil] at hn
      cases hn
    | some last =>
      have hle := h.le_last hsome n hn
      have hforward : ¬ target < last := by
        intro hlt
        rw [hsome] at hquiet
        simp [hlt] at hquiet
      omega
  refine ⟨?_, ?_, ?_, ?_⟩
  · rw [hnumbering]
    exact htarget
  · rw [hnumbering, hnumbers]
    exact h.last
  · rw [hnumbering, hnumbers]
    exact fun n hn => ⟨(h.range n hn).1, hlast n hn⟩
  · rw [hnumbers]
    exact h.sorted

theorem Ascending.move (h : r.Ascending) (hmove : Move r r') (hquiet : r'.warnings = []) :
    r'.Ascending := by
  cases hmove with
  | jump hjump => exact h.jump hjump hquiet
  | note l => exact ascending_of_numbers_eq h rfl (numbers_addNote l)
  | line l => exact h.addLine l
  | keep hkeep => exact ascending_of_numbers_eq h hkeep.numbering hkeep.numbers_eq

/-- **Numbers go up as long as there is no warning.** -/
theorem Ascending.of_moves (h : r.Ascending) (hmoves : Relation.ReflTransGen Move r r')
    (hquiet : r'.warnings = []) : r'.Ascending := by
  induction hmoves with
  | refl => exact h
  | tail _ hmove ih => exact (ih (hmove.warnings_eq_nil hquiet)).move hmove hquiet

/-- A report that nothing has been put into. -/
theorem ascending_empty (color indentAll : Bool) :
    ({ color := color, indentAll := indentAll } : Report Line).Ascending where
  cursor := by
    show (0 : Int) ≤ 1
    decide
  last := rfl
  range := by simp [numbers]
  sorted := List.Pairwise.nil

end Report

end Marginalia
