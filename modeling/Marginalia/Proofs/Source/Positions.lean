import Marginalia.Proofs.Digits
import Marginalia.Proofs.Source.Breaks
import Mathlib.Data.List.GetD

/-!
# Offsets and positions

The position of an offset is found by going along the lines until one is reached that the offset
lies in. That line and column are the only ones that give the offset back: the start of the line
plus the column, where the column lies within the line and its break, or up to the end of the text
in the last line (`Source.seek_eq_iff`). All else follows from this.

Results:
* `Source.position_eq_ok_iff`, `Source.rowText_eq_ok_iff`, `Source.offset_eq_ok_iff`: what each of
  the three finds, by the lines of the source.
* `Source.position_offset_inverse`: the two ways between offsets and positions undo each other.
-/

namespace Marginalia

/-- One position comes before another: in an earlier line, or further left in the same line. -/
def Position.Before (p q : Position) : Prop := p.row < q.row ∨ p.row = q.row ∧ p.column < q.column

namespace Source

/-! ## Seeking -/

/-- Column `c` of line `i` is a place among some lines: it lies within the line and its break, and
in the last line anywhere behind the start. -/
def Reaches (ls : List SourceLine) (i c : Nat) : Prop :=
  ∃ l, ls[i]? = some l ∧ (i + 1 < ls.length → c < l.extent)

theorem size_take_succ {ls : List SourceLine} {i : Nat} {l : SourceLine} (hl : ls[i]? = some l) :
    size (ls.take (i + 1)) = size (ls.take i) + l.extent := by
  rw [List.take_add_one, hl, size_append]
  simp

theorem seek_of_reaches : ∀ {ls : List SourceLine} {i c : Nat}, Reaches ls i c →
    seek ls (size (ls.take i) + c) = (i, c)
  | [], i, c, h => by
    obtain ⟨l, hl, -⟩ := h
    cases hl
  | [l], i, c, h => by
    obtain ⟨l', hl, -⟩ := h
    obtain rfl : i = 0 := by
      have := (List.getElem?_eq_some_iff.mp hl).1
      simpa using this
    simp [seek]
  | l :: next :: rest, 0, c, h => by
    obtain ⟨l', hl, hc⟩ := h
    obtain rfl : l = l' := by simpa using hl
    have hlt := hc (by simp)
    rw [List.take_zero, size_nil, Nat.zero_add, seek, if_pos hlt]
  | l :: next :: rest, i + 1, c, h => by
    have hrest : Reaches (next :: rest) i c := by
      obtain ⟨l', hl, hc⟩ := h
      exact ⟨l', hl, fun hi => hc (by simpa using hi)⟩
    rw [List.take_succ_cons, size_cons, seek, if_neg (by omega),
      show l.extent + size ((next :: rest).take i) + c - l.extent =
        size ((next :: rest).take i) + c by omega, seek_of_reaches hrest]

/-- Every offset is a place among the lines. -/
theorem exists_reaches : ∀ {ls : List SourceLine}, ls ≠ [] → ∀ offset : Nat,
    ∃ i c, Reaches ls i c ∧ offset = size (ls.take i) + c
  | [l], _, offset => ⟨0, offset, ⟨l, rfl, by simp⟩, by simp⟩
  | l :: next :: rest, _, offset => by
    by_cases h : offset < l.extent
    · exact ⟨0, offset, ⟨l, rfl, fun _ => h⟩, by simp⟩
    · obtain ⟨i, c, ⟨l', hl, hc⟩, hoffset⟩ :=
        exists_reaches (List.cons_ne_nil next rest) (offset - l.extent)
      refine ⟨i + 1, c, ⟨l', hl, fun hi => hc (by simpa using hi)⟩, ?_⟩
      rw [List.take_succ_cons, size_cons]
      omega

/-- **The line and column that are found** are the only place that gives the offset. -/
theorem seek_eq_iff {ls : List SourceLine} (hne : ls ≠ []) {offset i c : Nat} :
    seek ls offset = (i, c) ↔ Reaches ls i c ∧ offset = size (ls.take i) + c := by
  constructor
  · intro h
    obtain ⟨i', c', hreach, hoffset⟩ := exists_reaches hne offset
    rw [hoffset, seek_of_reaches hreach] at h
    cases h
    exact ⟨hreach, hoffset⟩
  · rintro ⟨hreach, rfl⟩
    exact seek_of_reaches hreach

/-- Lines that come later start no earlier than where an earlier one ends. -/
theorem size_take_mono (ls : List SourceLine) {i j : Nat} (h : i ≤ j) :
    size (ls.take i) ≤ size (ls.take j) := by
  obtain ⟨k, rfl⟩ := Nat.exists_eq_add_of_le h
  rw [List.take_add, size_append]
  omega

/-- **Later offsets are found further on.** -/
theorem reaches_lt {ls : List SourceLine} {i c i' c' : Nat} (hreach : Reaches ls i c)
    (hreach' : Reaches ls i' c') (h : size (ls.take i) + c < size (ls.take i') + c') :
    i < i' ∨ i = i' ∧ c < c' := by
  rcases Nat.lt_trichotomy i i' with hi | rfl | hi
  · exact Or.inl hi
  · exact Or.inr ⟨rfl, by omega⟩
  · obtain ⟨l, hl, -⟩ := hreach
    obtain ⟨l', hl', hc'⟩ := hreach'
    have hlen := (List.getElem?_eq_some_iff.mp hl).1
    have hlt := hc' (by omega)
    have hsucc := size_take_succ hl'
    have hmono := size_take_mono ls (show i' + 1 ≤ i from hi)
    omega

/-- **The number of the line is the number of breaks before it.** -/
theorem count_breaksOf : ∀ {ls : List SourceLine}, ∀ (start : Int) (offset : Nat),
    ((breaksOf ls start).filter fun b => b.stop ≤ start + offset).length = (seek ls offset).1
  | [], _, _ => rfl
  | [l], _, _ => rfl
  | l :: next :: rest, start, offset => by
    rw [breaksOf, seek]
    by_cases h : offset < l.extent
    · rw [if_pos h, List.filter_cons_of_neg (by simp; omega), List.length_eq_zero_iff,
        List.filter_eq_nil_iff]
      intro b hb
      obtain ⟨j, l', -, -, rfl⟩ := mem_breaksOf_iff.mp hb
      simp only [decide_eq_true_eq]
      omega
    · have hoffset : start + (offset : Int) =
          start + l.extent + ((offset - l.extent : Nat) : Int) := by omega
      rw [if_neg h, List.filter_cons_of_pos (by simp; omega), List.length_cons, hoffset,
        count_breaksOf]

/-! ## What is found in a source -/

variable {s : Source}

theorem ended_lines (s : Source) : Ended s.lines := s.convention.ended_cut s.content

theorem lines_ne_nil (s : Source) : s.lines ≠ [] := s.ended_lines.ne_nil

theorem startOf_eq_size (s : Source) (i : Nat) : s.startOf i = size (s.lines.take i) := rfl

theorem startOf_succ {i : Nat} {l : SourceLine} (hl : s.lines[i]? = some l) :
    s.startOf (i + 1) = s.startOf i + l.extent := size_take_succ hl

theorem startOf_length (s : Source) : s.startOf s.lines.length = s.content.length := by
  rw [startOf_eq_size, List.take_length]
  exact s.convention.size_cut s.content

theorem startOf_mono (s : Source) {i j : Nat} (h : i ≤ j) : s.startOf i ≤ s.startOf j :=
  size_take_mono s.lines h

theorem index?_eq_some_iff {row : Int} {i : Nat} :
    s.index? row = some i ↔ row = s.firstRow + i ∧ i < s.lines.length := by
  have hlast : s.lastRow = s.firstRow + s.lines.length - 1 := rfl
  rw [index?]
  split
  · rw [Option.some.injEq]
    omega
  · simp only [reduceCtorEq, false_iff]
    omega

/-- The text of a line is one of the texts in order. -/
theorem rowText_eq (s : Source) (row : Int) :
    s.rowText row = match s.index? row with
      | some i => .ok (s.rowTexts.getD i [])
      | none => Fault.refuse (.noSuchLine row) := by
  have hget : ∀ i, s.rowTexts.getD i [] = (s.lines.getD i {}).text :=
    fun i => List.getD_map s.lines {} SourceLine.text
  rw [rowText]
  cases s.index? row with
  | none => rfl
  | some i => exact congrArg Except.ok (hget i).symm

theorem rowText_eq_ok_iff {row : Int} {t : Text} :
    s.rowText row = .ok t ↔
      ∃ (i : Nat) (l : SourceLine), s.lines[i]? = some l ∧ row = s.firstRow + i ∧ t = l.text := by
  rw [rowText]
  constructor
  · intro h
    cases hi : s.index? row with
    | none =>
      rw [hi] at h
      cases h
    | some i =>
      obtain ⟨hrow, hlt⟩ := index?_eq_some_iff.mp hi
      rw [hi] at h
      cases h
      refine ⟨i, s.lines[i], List.getElem?_eq_getElem hlt, hrow, ?_⟩
      rw [List.getD_eq_getElem?_getD, List.getElem?_eq_getElem hlt]
      rfl
  · rintro ⟨i, l, hl, hrow, rfl⟩
    have hi := index?_eq_some_iff.mpr ⟨hrow, (List.getElem?_eq_some_iff.mp hl).1⟩
    rw [hi]
    simp only [List.getD_eq_getElem?_getD, hl]
    rfl

theorem offset_eq_ok_iff {row column o : Int} :
    s.offset row column = .ok o ↔
      ∃ (i : Nat) (l : SourceLine), s.lines[i]? = some l ∧ row = s.firstRow + i ∧ 0 ≤ column ∧
        column ≤ l.text.length ∧ o = s.startOf i + column := by
  rw [offset]
  constructor
  · intro h
    cases ht : s.rowText row with
    | error e =>
      rw [ht] at h
      cases h
    | ok t =>
      obtain ⟨i, l, hl, hrow, rfl⟩ := rowText_eq_ok_iff.mp ht
      rw [ht] at h
      simp only [bind, Except.bind] at h
      split at h
      · cases h
        refine ⟨i, l, hl, hrow, by omega, by omega, ?_⟩
        rw [show (row - s.firstRow).toNat = i by omega]
      · cases h
  · rintro ⟨i, l, hl, hrow, hcol, hlen, rfl⟩
    rw [rowText_eq_ok_iff.mpr ⟨i, l, hl, hrow, rfl⟩]
    simp only [bind, Except.bind]
    rw [if_pos ⟨hcol, hlen⟩, show (row - s.firstRow).toNat = i by omega]
    rfl

theorem offset_eq_error {row column : Int} {t : Text} (ht : s.rowText row = .ok t)
    (hcol : ¬ (0 ≤ column ∧ column ≤ t.length)) :
    s.offset row column = Fault.refuse (.noSuchColumn row column) := by
  rw [offset, ht]
  simp only [bind, Except.bind]
  rw [if_neg hcol]

theorem position_eq_ok_iff {o : Int} {here : Position} :
    s.position o = .ok here ↔ ∃ i c : Nat, Reaches s.lines i c ∧ o = s.startOf i + c ∧
      o ≤ s.content.length ∧ here = ⟨s.firstRow + i, c⟩ := by
  rw [position]
  constructor
  · intro h
    split at h
    · rename_i ho
      obtain ⟨hreach, hsize⟩ := (seek_eq_iff s.lines_ne_nil).mp
        (show seek s.lines o.toNat = ((seek s.lines o.toNat).1, (seek s.lines o.toNat).2) from rfl)
      cases h
      rw [← startOf_eq_size] at hsize
      exact ⟨_, _, hreach, by omega, ho.2, rfl⟩
    · cases h
  · rintro ⟨i, c, hreach, rfl, hle, rfl⟩
    rw [if_pos ⟨by omega, hle⟩]
    have hseek : seek s.lines ((s.startOf i : Int) + c).toNat = (i, c) :=
      (seek_eq_iff s.lines_ne_nil).mpr ⟨hreach, by rw [startOf_eq_size]; omega⟩
    rw [hseek]

/-- An offset of the text has a position. -/
theorem exists_position {o : Int} (h0 : 0 ≤ o) (hlen : o ≤ s.content.length) :
    ∃ here, s.position o = .ok here := by
  obtain ⟨i, c, hreach, hsize⟩ := exists_reaches s.lines_ne_nil o.toNat
  rw [← startOf_eq_size] at hsize
  exact ⟨_, position_eq_ok_iff.mpr ⟨i, c, hreach, by omega, hlen, rfl⟩⟩

theorem position_of_outside {o : Int} (h : ¬ (0 ≤ o ∧ o ≤ s.content.length)) :
    s.position o = Fault.refuse (.offsetOutside o) := if_neg h

/-- A column that a position may have is short enough to be written, and so is the next one. -/
theorem digitCount_column_le {o : Int} {here : Position} (h : s.position o = .ok here) :
    Text.digitCount (here.column + 1) ≤ Text.digitLimit := by
  obtain ⟨i, c, -, rfl, hlen, rfl⟩ := position_eq_ok_iff.mp h
  have hfits := s.fits
  refine Text.digitCount_le_of_lengthLimit ?_
  simp only
  omega

/-- No line is longer than the text. -/
theorem extent_le_length {i : Nat} {l : SourceLine} (hl : s.lines[i]? = some l) :
    s.startOf i + l.extent ≤ s.content.length := by
  have hi : i + 1 ≤ s.lines.length := (List.getElem?_eq_some_iff.mp hl).1
  have hmono := s.startOf_mono hi
  rw [startOf_succ hl, startOf_length] at hmono
  exact hmono

/-- A position lies on one of the lines, no further to the right than the text is long. -/
theorem position_bounds {o : Int} {here : Position} (h : s.position o = .ok here) :
    s.firstRow ≤ here.row ∧ 0 ≤ here.column ∧ here.column ≤ s.content.length ∧
      ∃ t, s.rowText here.row = .ok t := by
  obtain ⟨i, c, ⟨l, hl, -⟩, rfl, hlen, rfl⟩ := position_eq_ok_iff.mp h
  exact ⟨by simp only; omega, by simp only; omega, by simp only; omega, l.text,
    rowText_eq_ok_iff.mpr ⟨i, l, hl, rfl, rfl⟩⟩

theorem length_rowText_le {row : Int} {t : Text} (h : s.rowText row = .ok t) :
    t.length ≤ s.content.length := by
  obtain ⟨i, l, hl, -, rfl⟩ := rowText_eq_ok_iff.mp h
  have hextent := extent_le_length hl
  unfold SourceLine.extent at hextent
  omega

/-- Later offsets have later positions. -/
theorem position_strictMono {o o' : Int} {here here' : Position} (h : s.position o = .ok here)
    (h' : s.position o' = .ok here') (hlt : o < o') : here.Before here' := by
  obtain ⟨i, c, hreach, rfl, -, rfl⟩ := position_eq_ok_iff.mp h
  obtain ⟨i', c', hreach', rfl, -, rfl⟩ := position_eq_ok_iff.mp h'
  rw [startOf_eq_size, startOf_eq_size] at hlt
  have := reaches_lt hreach hreach' (by omega)
  unfold Position.Before
  simp only
  omega

/-- Going on in the text never leads back to an earlier line. -/
theorem position_row_mono {o o' : Int} {here here' : Position} (h : s.position o = .ok here)
    (h' : s.position o' = .ok here') (hle : o ≤ o') : here.row ≤ here'.row := by
  rcases Int.lt_or_eq_of_le hle with hlt | rfl
  · have := position_strictMono h h' hlt
    unfold Position.Before at this
    omega
  · cases h.symm.trans h'
    exact Int.le_refl _

theorem breaks_eq_breaksOf (s : Source) : s.breaks = breaksOf s.lines 0 :=
  s.convention.breaks_eq_breaksOf s.content 0

/-! ## Going there and back -/

section Found

variable {i c : Nat} {l : SourceLine} (hreach : Reaches s.lines i c) (hl : s.lines[i]? = some l)

include hreach hl

/-- Behind the text of a line that an offset lies in, there is its break. -/
theorem lt_extent_of_text_lt (hlen : s.startOf i + c ≤ s.content.length)
    (hlt : l.text.length < c) : i + 1 < s.lines.length ∧ c < l.extent := by
  have hi : i + 1 < s.lines.length := by
    refine Decidable.byContradiction fun hlast => ?_
    have hend := s.ended_lines.ending hl
    rw [if_neg hlast] at hend
    have hextent : l.extent = l.text.length := by simp [SourceLine.extent, hend]
    have hlt' := (List.getElem?_eq_some_iff.mp hl).1
    have hsucc := startOf_succ hl
    rw [show i + 1 = s.lines.length by omega, startOf_length] at hsucc
    omega
  obtain ⟨l', hl', hc⟩ := hreach
  obtain rfl : l = l' := Option.some.inj (hl.symm.trans hl')
  exact ⟨hi, hc hi⟩

/-- An offset lies within a break of two characters iff it lies behind the text of its line. -/
theorem within_break_iff (hlen : s.startOf i + c ≤ s.content.length) :
    (∃ b ∈ s.breaks, b.width = 2 ∧ b.start < (s.startOf i + c : Int) ∧
      (s.startOf i + c : Int) < b.stop) ↔ l.text.length < c := by
  rw [breaks_eq_breaksOf]
  constructor
  · rintro ⟨b, hb, -, hstart, hstop⟩
    obtain ⟨j, l', hl', hj, rfl⟩ := mem_breaksOf_iff.mp hb
    rw [← startOf_eq_size] at hstart hstop
    simp only [Int.zero_add] at hstart hstop
    obtain ⟨d, hd⟩ : ∃ d : Nat, s.startOf i + c = s.startOf j + d :=
      ⟨s.startOf i + c - s.startOf j, by omega⟩
    have hreach' : Reaches s.lines j d := ⟨l', hl', fun _ => by omega⟩
    have hseek := (seek_eq_iff s.lines_ne_nil).mpr ⟨hreach, rfl⟩
    rw [← startOf_eq_size, hd, startOf_eq_size, seek_of_reaches hreach'] at hseek
    cases hseek
    obtain rfl : l = l' := Option.some.inj (hl.symm.trans hl')
    omega
  · intro hlt
    obtain ⟨hi, hc⟩ := lt_extent_of_text_lt hreach hl hlen hlt
    have hend := s.ended_lines.ending hl
    rw [if_pos hi] at hend
    refine ⟨_, mem_breaksOf_iff.mpr ⟨i, l, hl, hi, rfl⟩, ?_⟩
    rw [← startOf_eq_size]
    simp only [Span.width, SourceLine.extent] at hc ⊢
    omega

end Found

/-- The offset of a line and column is found at that line and column. -/
theorem position_of_offset {row column o : Int} (h : s.offset row column = .ok o) :
    s.position o = .ok ⟨row, column⟩ := by
  obtain ⟨i, l, hl, rfl, hcol, hlen, rfl⟩ := offset_eq_ok_iff.mp h
  obtain ⟨c, rfl⟩ := Int.eq_ofNat_of_zero_le hcol
  have hend := s.ended_lines.ending hl
  refine position_eq_ok_iff.mpr ⟨i, c, ⟨l, hl, fun hi => ?_⟩, rfl, ?_, rfl⟩
  · rw [if_pos hi] at hend
    unfold SourceLine.extent
    omega
  · have hextent := extent_le_length hl
    unfold SourceLine.extent at hextent
    omega

/-- That there is no such column is said only if the number of the line can be written. -/
theorem uttered_noSuchColumn {o : Int} {here : Position} (h : s.position o = .ok here) :
    (Fault.noSuchColumn here.row here.column).uttered =
      if Text.digitLimit < Text.digitCount here.row then .numberTooLong
      else .noSuchColumn here.row here.column := by
  split
  · exact Fault.uttered_of_long List.mem_cons_self ‹_›
  · refine Fault.uttered_of_short (List.forall_mem_cons.mpr ⟨Nat.le_of_not_lt ‹_›, ?_⟩)
    exact List.forall_mem_singleton.mpr (digitCount_column_le h)

/-- **Offsets and positions undo each other.** An offset that is found for a line and column is
found there. Every offset of the text is found at a column of one of the lines, whose number counts
the breaks that end at the offset or before it; and the way back leads to the same offset, except
from within a break of two characters, where there is no such column. That is said only if the
number of the line can be written. Later offsets have later positions. Exactly the columns of the
lines have offsets, that just past the end of a line included. -/
theorem position_offset_inverse (s : Source) :
    (∀ row column o, s.offset row column = .ok o → s.position o = .ok ⟨row, column⟩) ∧
    (∀ o : Int, 0 ≤ o → o ≤ s.content.length → ∃ here, s.position o = .ok here ∧
      s.firstRow ≤ here.row ∧ here.row ≤ s.lastRow ∧ 0 ≤ here.column ∧
      here.row - s.firstRow = (s.breaks.filter fun b => b.stop ≤ o).length ∧
      s.offset here.row here.column =
        if ∃ b ∈ s.breaks, b.width = 2 ∧ b.start < o ∧ o < b.stop then
          .error (if Text.digitLimit < Text.digitCount here.row then .numberTooLong
            else .noSuchColumn here.row here.column)
        else .ok o) ∧
    (∀ o o' here here', s.position o = .ok here → s.position o' = .ok here' → o < o' →
      here.Before here') ∧
    ∀ row column, (∃ o, s.offset row column = .ok o) ↔
      s.firstRow ≤ row ∧ row ≤ s.lastRow ∧
        ∃ t, s.rowText row = .ok t ∧ 0 ≤ column ∧ column ≤ t.length := by
  refine ⟨fun row column o h => position_of_offset h, fun o h0 hlen => ?_,
    fun o o' here here' h h' hlt => position_strictMono h h' hlt, fun row column => ⟨?_, ?_⟩⟩
  · obtain ⟨here, hhere⟩ := exists_position h0 hlen
    obtain ⟨i, c, hreach, rfl, -, rfl⟩ := position_eq_ok_iff.mp hhere
    obtain ⟨l, hl, -⟩ := id hreach
    have hi := (List.getElem?_eq_some_iff.mp hl).1
    have hlast : s.lastRow = s.firstRow + s.lines.length - 1 := rfl
    have hrow : s.rowText (s.firstRow + i) = .ok l.text :=
      rowText_eq_ok_iff.mpr ⟨i, l, hl, rfl, rfl⟩
    refine ⟨_, hhere, by simp only; omega, by simp only; omega, by simp only; omega, ?_, ?_⟩
    · have hcount := @count_breaksOf s.lines 0 (s.startOf i + c)
      rw [startOf_eq_size, seek_of_reaches hreach, ← startOf_eq_size,
        ← breaks_eq_breaksOf] at hcount
      simp only [Int.zero_add, Int.natCast_add] at hcount
      rw [hcount]
      simp only
      omega
    · have hiff := within_break_iff hreach hl (by omega)
      split
      · rename_i hwithin
        have hbehind := hiff.mp hwithin
        have hoffset : s.offset (s.firstRow + i) c =
            Fault.refuse (.noSuchColumn (s.firstRow + i) c) :=
          offset_eq_error hrow fun hcol => by omega
        rw [hoffset, Fault.refuse, uttered_noSuchColumn hhere]
      · rename_i hwithin
        rw [hiff] at hwithin
        exact offset_eq_ok_iff.mpr ⟨i, l, hl, rfl, by simp only; omega, by simp only; omega, rfl⟩
  · rintro ⟨o, ho⟩
    obtain ⟨i, l, hl, rfl, hcol, hle, rfl⟩ := offset_eq_ok_iff.mp ho
    have hi := (List.getElem?_eq_some_iff.mp hl).1
    have hlast : s.lastRow = s.firstRow + s.lines.length - 1 := rfl
    exact ⟨by omega, by omega, l.text, rowText_eq_ok_iff.mpr ⟨i, l, hl, rfl, rfl⟩, hcol, hle⟩
  · rintro ⟨-, -, t, ht, hcol, hle⟩
    obtain ⟨i, l, hl, rfl, rfl⟩ := rowText_eq_ok_iff.mp ht
    exact ⟨_, offset_eq_ok_iff.mpr ⟨i, l, hl, rfl, hcol, hle, rfl⟩⟩

/-- Within a break of two characters the way back need not end for want of a column: the second
line has a number that is too long to say so. -/
theorem offset_within_break_of_long_row :
    ¬ ∀ (s : Source) (o : Int) (here : Position), s.position o = .ok here →
      (∃ b ∈ s.breaks, b.width = 2 ∧ b.start < o ∧ o < b.stop) →
      s.offset here.row here.column = .error (.noSuchColumn here.row here.column) := by
  intro hclaim
  obtain ⟨n, -, -, hlong⟩ := Text.exists_longest
  let s : Source := { content := ['\n', '\r', '\n'], firstRow := n }
  have hhere : s.position 2 = .ok ⟨s.firstRow + 1, 1⟩ := rfl
  have hwithin : ∃ b ∈ s.breaks, b.width = 2 ∧ b.start < 2 ∧ 2 < b.stop :=
    ⟨⟨1, 3⟩, List.mem_cons_of_mem _ List.mem_cons_self, rfl, by decide, by decide⟩
  have hrow : s.rowText (s.firstRow + 1) = .ok [] :=
    rowText_eq_ok_iff.mpr ⟨1, { ending := ['\r', '\n'] }, rfl, rfl, rfl⟩
  have hdigits : Text.digitLimit < Text.digitCount (s.firstRow + 1) := hlong _ (Int.lt_succ n)
  have hoffset := (hclaim s 2 _ hhere hwithin).symm.trans
    (offset_eq_error hrow (by simp))
  rw [Fault.refuse, uttered_noSuchColumn hhere, if_pos hdigits] at hoffset
  cases hoffset

-- Between a carriage return and its line feed there is a position, but no column of the line.
example :
    let s : Source := { content := ['a', '\r', '\n', 'b'] }
    s.position 2 = .ok ⟨1, 2⟩ ∧ s.offset 1 2 = .error (.noSuchColumn 1 2) ∧
      s.position 3 = .ok ⟨2, 0⟩ :=
  ⟨rfl, rfl, rfl⟩

end Source

end Marginalia
