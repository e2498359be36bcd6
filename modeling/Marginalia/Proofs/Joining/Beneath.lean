import Marginalia.Proofs.Ownership

/-!
# The rows beneath two lines joined

Where two lines are joined, the underlines of the second move along with its text. As long as no
underline of the first line reaches past its text, none of them has a cell beneath the second text,
not even one that is empty and lies on the seam, and none of the second has a cell beneath the
first. So the drawing of the joined line is that of the first line up to the seam and that of the
second behind it, however the underlines of each collide (`Line.drawing_append_left`,
`Line.drawing_append_right`). Hints are in the order of their underlines, so those of the first line
come first.

Results:
* `Drawing.flatMap_glyph_eq_rightpad`: a drawing that is looked at past its end is padded.
* `Line.showHints_append`: the hints of two lines joined.
* `Line.rows_beneath_append`: both rows beneath two lines joined.
-/

namespace Marginalia

namespace Text

/-- Blanks in front of blanks. -/
theorem blanks_add {m n : Int} (hm : 0 ≤ m) (hn : 0 ≤ n) :
    blanks (m + n) = blanks m ++ blanks n := by
  rw [blanks, blanks, blanks, Int.toNat_add hm hn, List.replicate_add]

end Text

namespace Underline

variable {us vs : List Underline}

@[simp] theorem start_shift (u : Underline) (offset : Int) :
    (u.shift offset).start = u.start + offset := rfl

@[simp] theorem stop_shift (u : Underline) (offset : Int) :
    (u.shift offset).stop = u.stop + offset := rfl

/-- An underline that is moved along draws the same glyphs. -/
theorem glyphAt_shift (u : Underline) (offset c : Int) :
    (u.shift offset).glyphAt (offset + c) = u.glyphAt c := by
  have hfirst : offset + c = (u.shift offset).start ↔ c = u.start := by
    rw [start_shift]
    omega
  by_cases h : c = u.start
  · rw [glyphAt, glyphAt, if_pos (hfirst.mpr h), if_pos h]
    rfl
  · rw [glyphAt, glyphAt, if_neg fun h' => h (hfirst.mp h'), if_neg h]
    rfl

theorem inOrder_map_shift (us : List Underline) (offset : Int) :
    inOrder (·.start) (us.map (·.shift offset)) =
      (inOrder (·.start) us).map (·.shift offset) := by
  refine inOrder_map _ (fun u v => ?_) us
  rw [start_shift, start_shift]
  omega

/-- **A drawing moves along with its underlines.** -/
theorem drawing_map_shift (us : List Underline) (n c : Nat) :
    drawing (us.map (·.shift n)) (n + c) = (drawing us c).map (·.shift n) := by
  have hbegun : ∀ u : Underline,
      decide ((u.shift n).start ≤ ((n + c : Nat) : Int)) = decide (u.start ≤ (c : Int)) := by
    intro u
    rw [decide_eq_decide, start_shift]
    omega
  have hlasting : ∀ u : Underline,
      decide (((n + c : Nat) : Int) < (u.shift n).stop) = decide ((c : Int) < u.stop) := by
    intro u
    rw [decide_eq_decide, stop_shift]
    omega
  have howner : owner? (us.map (·.shift n)) (n + c) = (owner? us c).map (·.shift n) := by
    rw [owner?, owner?, List.filter_map, List.getLast?_map]
    congr 2
    exact List.filter_congr fun u _ => hbegun u
  rw [drawing, drawing, howner, Option.filter_map]
  congr 1
  exact congrArg (fun p => (owner? us c).filter p) (funext hlasting)

theorem owner?_append (c : Nat) : owner? (us ++ vs) c = (owner? vs c).or (owner? us c) := by
  rw [owner?, List.filter_append, List.getLast?_append]
  rfl

/-- In front of all underlines of the second sort those of the first are drawn. -/
theorem drawing_append_of_lt {c : Nat} (h : ∀ v ∈ vs, (c : Int) < v.start) :
    drawing (us ++ vs) c = drawing us c := by
  have hnone : owner? vs c = none := by
    rw [owner?, List.getLast?_eq_none_iff, List.filter_eq_nil_iff]
    intro v hv
    have := h v hv
    rw [decide_eq_true_iff]
    omega
  rw [drawing, drawing, owner?_append, hnone, Option.none_or]

/-- Behind all underlines of the first sort those of the second are drawn. -/
theorem drawing_append_of_le {c : Nat} (h : ∀ u ∈ us, u.stop ≤ (c : Int)) :
    drawing (us ++ vs) c = drawing vs c := by
  rw [drawing, drawing, owner?_append]
  cases hv : owner? vs c with
  | some v => rfl
  | none =>
    rw [Option.none_or, Option.filter_none]
    refine Option.eq_none_iff_forall_ne_some.mpr fun u hu => ?_
    have := h u (mem_of_drawn hu).1
    have := (mem_of_drawn hu).2.2
    omega

/-- The row of a hint that is moved along has as many blanks more in front. -/
theorem emit_hintRow_shift {u : Underline} (h : 0 ≤ u.start) (n : Nat) (colored : Bool) :
    (u.shift n).hintRow.emit colored = Text.blanks n ++ u.hintRow.emit colored := by
  have hrow : ∀ u : Underline, u.hintRow.emit colored =
      Text.blanks u.start ++ Row.emit colored [.on u.on, .glyphs u.hint, .off u.off] := by
    intro u
    rw [hintRow, Row.emit_cons, Piece.emit_gap]
  rw [hrow, hrow, start_shift, Int.add_comm, Text.blanks_add (Int.natCast_nonneg n) h,
    List.append_assoc]
  rfl

end Underline

namespace Drawing

variable {d : Drawing} {m n : Nat}

/-- A drawing ends in one place only. -/
theorem EndsAt.unique (hm : d.EndsAt m) (hn : d.EndsAt n) : m = n := by
  have hle : ∀ {i j : Nat}, d.EndsAt i → d.EndsAt j → i ≤ j := by
    intro i j hi hj
    cases i with
    | zero => exact Nat.zero_le j
    | succ c => exact hj.1 c (hi.2 c rfl)
  exact Nat.le_antisymm (hle hm hn) (hle hn hm)

/-- All glyphs have one character. -/
def Single (d : Drawing) : Prop := ∀ c, (d.glyph c).length = 1

theorem Single.length_flatMap (h : d.Single) (n : Nat) :
    ((List.range n).flatMap d.glyph).length = n := by
  rw [List.length_flatMap, List.map_congr_left fun c _ => h c, List.map_const', List.length_range,
    List.sum_replicate_nat, Nat.mul_one]

/-- **Past its end a drawing is blank.** -/
theorem flatMap_glyph_eq_rightpad (h : d.Single) (hend : d.EndsAt m) (hmn : m ≤ n) :
    (List.range n).flatMap d.glyph = ((List.range m).flatMap d.glyph).rightpad n ' ' := by
  obtain ⟨k, rfl⟩ := Nat.exists_eq_add_of_le hmn
  have hblank : ((List.range k).map (m + ·)).flatMap d.glyph = List.replicate k ' ' := by
    have hcells : ∀ c ∈ (List.range k).map (m + ·), d.glyph c = [' '] := by
      intro c hc
      obtain ⟨i, -, rfl⟩ := List.mem_map.mp hc
      refine glyph_of_blank (Option.not_isSome_iff_eq_none.mp fun hdrawn => ?_)
      have := hend.1 (m + i) hdrawn
      omega
    rw [List.flatMap_congr hcells, ← List.map_eq_flatMap, List.map_const', List.length_map,
      List.length_range]
  rw [List.range_add, List.flatMap_append, hblank, List.rightpad, h.length_flatMap,
    Nat.add_sub_cancel_left]

end Drawing

namespace Line

variable {a b : Line}

theorem underlines_append (a b : Line) :
    (a ++ b).underlines = a.underlines ++ b.underlines.map (·.shift a.text.length) := rfl

/-- The underlines of the first line come before those of the second. -/
theorem inOrder_underlines_append (ha : ∀ u ∈ a.underlines, u.start ≤ (a.text.length : Int))
    (hb : ∀ u ∈ b.underlines, 0 ≤ u.start) :
    inOrder (·.start) (a ++ b).underlines = inOrder (·.start) a.underlines ++
      (inOrder (·.start) b.underlines).map (·.shift a.text.length) := by
  rw [underlines_append, inOrder_append, Underline.inOrder_map_shift]
  intro u hu v hv
  obtain ⟨w, hw, rfl⟩ := List.mem_map.mp hv
  have := ha u hu
  have := hb w hw
  rw [Underline.start_shift]
  omega

/-- Underlines that do not reach past the text are drawn beneath it. -/
theorem lt_length_of_drawn (ha : ∀ u ∈ a.underlines, u.stop ≤ (a.text.length : Int)) {c : Nat}
    (h : (a.drawing c).isSome) : c < a.text.length := by
  obtain ⟨u, hu⟩ := Option.isSome_iff_exists.mp h
  rw [drawing_eq_inOrder] at hu
  obtain ⟨hmem, -, hstop⟩ := Underline.mem_of_drawn hu
  have := ha u ((mem_inOrder _).mp hmem)
  omega

section Within

variable (ha : ∀ u ∈ a.underlines, u.start ≤ u.stop ∧ u.stop ≤ (a.text.length : Int))
  (hb : ∀ u ∈ b.underlines, 0 ≤ u.start)

include ha hb

theorem drawing_append : (a ++ b).drawing =
    Underline.drawing (inOrder (·.start) a.underlines ++
      (inOrder (·.start) b.underlines).map (·.shift a.text.length)) := by
  have hbegin : ∀ u ∈ a.underlines, u.start ≤ (a.text.length : Int) := by
    intro u hu
    have := ha u hu
    omega
  rw [drawing_eq_inOrder, inOrder_underlines_append hbegin hb]

/-- **Beneath the first text** the joined line has the underlines of the first line. -/
theorem drawing_append_left {c : Nat} (hc : c < a.text.length) :
    (a ++ b).drawing c = a.drawing c := by
  rw [drawing_append ha hb, drawing_eq_inOrder, Underline.drawing_append_of_lt]
  intro v hv
  obtain ⟨w, hw, rfl⟩ := List.mem_map.mp hv
  have := hb w ((mem_inOrder _).mp hw)
  rw [Underline.start_shift]
  omega

/-- **Behind the seam** the joined line has the underlines of the second line. -/
theorem drawing_append_right (c : Nat) :
    (a ++ b).drawing (a.text.length + c) = (b.drawing c).map (·.shift a.text.length) := by
  rw [drawing_append ha hb, drawing_eq_inOrder, Underline.drawing_append_of_le,
    Underline.drawing_map_shift]
  intro u hu
  have := ha u ((mem_inOrder _).mp hu)
  omega

theorem glyph_append_left {c : Nat} (hc : c < a.text.length) :
    (a ++ b).drawing.glyph c = a.drawing.glyph c := by
  rw [Drawing.glyph, Drawing.glyph, drawing_append_left ha hb hc]

theorem glyph_append_right (c : Nat) :
    (a ++ b).drawing.glyph (a.text.length + c) = b.drawing.glyph c := by
  rw [Drawing.glyph, Drawing.glyph, drawing_append_right ha hb]
  cases b.drawing c with
  | none => rfl
  | some u => exact Underline.glyphAt_shift u a.text.length c

/-- The drawing of the joined line ends with that of the first line if nothing is drawn of the
second, and otherwise with that of the second. -/
theorem endsAt_append {m n : Nat} (hm : a.drawing.EndsAt m) (hn : b.drawing.EndsAt n) :
    (a ++ b).drawing.EndsAt (if n = 0 then m else a.text.length + n) := by
  have hright : ∀ c, (((a ++ b).drawing (a.text.length + c)).isSome ↔ (b.drawing c).isSome) := by
    intro c
    rw [drawing_append_right ha hb, Option.isSome_map]
  have hdrawn : ∀ c, ((a ++ b).drawing c).isSome →
      c < a.text.length ∧ c < m ∨ ∃ i < n, c = a.text.length + i := by
    intro c hc
    by_cases hlt : c < a.text.length
    · rw [drawing_append_left ha hb hlt] at hc
      exact Or.inl ⟨hlt, hm.1 c hc⟩
    · obtain ⟨i, rfl⟩ := Nat.exists_eq_add_of_le (Nat.le_of_not_lt hlt)
      exact Or.inr ⟨i, hn.1 i ((hright i).mp hc), rfl⟩
  split
  · rename_i hzero
    refine ⟨fun c hc => ?_, fun c hc => ?_⟩
    · rcases hdrawn c hc with h | ⟨i, hi, -⟩
      · exact h.2
      · omega
    · have hlast := hm.2 c hc
      rwa [drawing_append_left ha hb (lt_length_of_drawn (fun u hu => (ha u hu).2) hlast)]
  · refine ⟨fun c hc => ?_, fun c hc => ?_⟩
    · rcases hdrawn c hc with h | ⟨i, hi, rfl⟩
      · omega
      · omega
    · obtain ⟨i, rfl⟩ : ∃ i, n = i + 1 := ⟨n - 1, by omega⟩
      rw [show c = a.text.length + i by omega, hright]
      exact hn.2 i rfl

end Within

/-- The glyphs of a line have one character if those of its underlines have. -/
theorem DrawnSingly.single {l : Line} (h : l.DrawnSingly) : l.drawing.Single := by
  intro c
  rw [Drawing.glyph]
  cases hu : l.drawing c with
  | none => rfl
  | some u =>
    rw [drawing_eq_inOrder] at hu
    obtain ⟨-, hhead, hfill⟩ := h u ((mem_inOrder _).mp (Underline.mem_of_drawn hu).1)
    show (u.glyphAt c).length = 1
    rw [Underline.glyphAt]
    split
    · exact hhead
    · exact hfill

/-- The underline row of two lines joined. -/
theorem showUnderline_append
    (hwithin : ∀ u ∈ a.underlines, u.start ≤ u.stop ∧ u.stop ≤ (a.text.length : Int))
    (ha : a.DrawnSingly) (hb : b.DrawnSingly) :
    (a ++ b).showUnderline false =
      if b.showUnderline false = [] then a.showUnderline false
      else (a.showUnderline false).rightpad a.text.length ' ' ++ b.showUnderline false := by
  have hb0 : ∀ u ∈ b.underlines, 0 ≤ u.start := fun u hu => (hb u hu).1
  have hab0 : ∀ u ∈ (a ++ b).underlines, 0 ≤ u.start := by
    rw [underlines_append, List.forall_mem_append, List.forall_mem_map]
    refine ⟨fun u hu => (ha u hu).1, fun u hu => ?_⟩
    have := hb0 u hu
    rw [Underline.start_shift]
    omega
  obtain ⟨m, hm, hplain, -⟩ := showUnderline_eq_drawing fun u hu => (ha u hu).1
  obtain ⟨n, hn, hplain', -⟩ := showUnderline_eq_drawing hb0
  obtain ⟨k, hk, hjoined, -⟩ := showUnderline_eq_drawing hab0
  have hmle : m ≤ a.text.length := by
    cases m with
    | zero => exact Nat.zero_le _
    | succ c => exact lt_length_of_drawn (fun u hu => (hwithin u hu).2) (hm.2 c rfl)
  have hleft : ∀ i ≤ a.text.length,
      (List.range i).flatMap (a ++ b).drawing.glyph = (List.range i).flatMap a.drawing.glyph :=
    fun i hi => List.flatMap_congr fun c hc =>
      glyph_append_left hwithin hb0 (Nat.lt_of_lt_of_le (List.mem_range.mp hc) hi)
  have hempty : b.showUnderline false = [] ↔ n = 0 := by
    rw [hplain', ← List.length_eq_zero_iff, hb.single.length_flatMap]
  rw [hjoined, hk.unique (endsAt_append hwithin hb0 hm hn)]
  by_cases hzero : n = 0
  · rw [if_pos hzero, if_pos (hempty.mpr hzero), hplain, hleft m hmle]
  · rw [if_neg hzero, if_neg fun h => hzero (hempty.mp h), hplain, hplain', List.range_add,
      List.flatMap_append, hleft _ (Nat.le_refl _),
      Drawing.flatMap_glyph_eq_rightpad ha.single hm hmle, List.flatMap_map]
    congr 1
    exact List.flatMap_congr fun c _ => glyph_append_right hwithin hb0 c

/-- **The hints of two lines joined** are those of the first and below them those of the second,
moved along with their text. -/
theorem showHints_append (ha : ∀ u ∈ a.underlines, u.start ≤ (a.text.length : Int))
    (hb : ∀ u ∈ b.underlines, 0 ≤ u.start) (colored : Bool) :
    (a ++ b).showHints colored = a.showHints colored ++
      (b.showHints colored).map (Text.blanks a.text.length ++ ·) := by
  have hshown : ((inOrder (·.start) b.underlines).map (·.shift a.text.length)).filter
      (fun u => !u.hint.isEmpty) =
      ((inOrder (·.start) b.underlines).filter fun u => !u.hint.isEmpty).map
        (·.shift a.text.length) := by
    rw [List.filter_map]
    rfl
  rw [showHints, hintRows, inOrder_underlines_append ha hb, List.filter_append, hshown,
    List.map_append, List.map_append, showHints, hintRows, showHints, hintRows]
  congr 1
  simp only [List.map_map]
  refine List.map_congr_left fun u hu => ?_
  have hstart := hb u ((mem_inOrder _).mp (List.mem_filter.mp hu).1)
  exact Underline.emit_hintRow_shift hstart a.text.length colored

/-- **The rows beneath two lines joined stand side by side**, if all glyphs have one character and
no underline of the first line reaches past its text. The underline row is that of the first line
alone if nothing is drawn of the second, and otherwise that of the first, padded up to the seam, and
that of the second; the hints are those of the first and below them those of the second, indented by
as much as the first text is long. No underline begins before a text or ends before it begins:
`Line.accept` refuses it, and joining lines moves none to the left. -/
theorem rows_beneath_append (ha : a.DrawnSingly) (hb : b.DrawnSingly)
    (hwithin : ∀ u ∈ a.underlines, u.start ≤ u.stop ∧ u.stop ≤ (a.text.length : Int)) :
    (a ++ b).showUnderline false =
      (if b.showUnderline false = [] then a.showUnderline false
      else (a.showUnderline false).rightpad a.text.length ' ' ++ b.showUnderline false) ∧
    ∀ colored, (a ++ b).showHints colored = a.showHints colored ++
      (b.showHints colored).map (Text.blanks a.text.length ++ ·) := by
  have hbegin : ∀ u ∈ a.underlines, u.start ≤ (a.text.length : Int) := by
    intro u hu
    have := hwithin u hu
    omega
  exact ⟨showUnderline_append hwithin ha hb,
    showHints_append hbegin fun u hu => (hb u hu).1⟩

/-- The first line has an empty underline on the seam, where one of the second begins, and is padded
from the end of its other underline on. The underlines of the second line collide. -/
theorem rows_beneath_append_seam :
    let a : Line := { text := ['a', 'b', 'c'], underlines := [
      { start := 3, stop := 3, hint := ['x'] }, { start := 0, stop := 2, hint := ['y'] }] }
    let b : Line := { text := ['d', 'e', 'f'], underlines := [
      { start := 1, stop := 3, fill := ['~'], tip := some ['^'], hint := ['z'] },
      { start := 0, stop := 3 }] }
    (a.DrawnSingly ∧ b.DrawnSingly ∧
      ∀ u ∈ a.underlines, u.start ≤ u.stop ∧ u.stop ≤ (a.text.length : Int)) ∧
      (a ++ b).showUnderline false = ['-', '-', ' '] ++ ['-', '^', '~'] ∧
      (a ++ b).showHints false =
        [['y'], [' ', ' ', ' ', 'x'], [' ', ' ', ' '] ++ [' ', 'z']] := by
  intro a b
  have ha : a.DrawnSingly := by unfold DrawnSingly; decide
  have hb : b.DrawnSingly := by unfold DrawnSingly; decide
  have hwithin : ∀ u ∈ a.underlines, u.start ≤ u.stop ∧ u.stop ≤ (a.text.length : Int) := by
    decide
  obtain ⟨hunderline, hhints⟩ := rows_beneath_append ha hb hwithin
  refine ⟨⟨ha, hb, hwithin⟩, ?_, ?_⟩
  · rw [hunderline]
    decide
  · rw [hhints]
    decide

end Line

end Marginalia
