import Marginalia.Proofs.UnderlineRow
import Mathlib.Data.List.Basic

/-!
# A row of underlines as a drawing

What a row of underlines shows can be told cell by cell: in each cell some underline is drawn, or
none. From such a `Drawing` the text of the row follows, its codes included: the code that ends an
underline stands behind its last cell, and the code that begins it in front of its first one, or in
front of the last blank of the gap before that (`Drawing.seat`).

An underline that has the cells of one stretch and no others (`Drawing.Holds`) is painted as these
cells are to be, and so is the gap in front of it.

Results:
* `UnderlineRow.emit_lead`: a gap, with the code in it or behind it.
* `UnderlineRow.emit_stroke`: an underline, with the code that ends it.
-/

namespace Marginalia

/-- What is drawn in each cell of a row: an underline, or nothing. -/
abbrev Drawing := Nat → Option Underline

namespace Drawing

variable (d : Drawing)

/-- The glyph in a cell: a blank if nothing is drawn there. -/
def glyph (c : Nat) : Text := (d c).elim [' '] fun u => u.glyphAt c

/-- Something is drawn before a cell. -/
def Begun (c : Nat) : Prop := ∃ i < c, (d i).isSome

instance (c : Nat) : Decidable (d.Begun c) :=
  inferInstanceAs (Decidable (∃ i, i < c ∧ (d i).isSome))

/-- The cells end where nothing more is drawn: the cell before, if there is one, is the last that is
drawn. -/
def EndsAt (n : Nat) : Prop := (∀ c, (d c).isSome → c < n) ∧ ∀ c, n = c + 1 → (d c).isSome

/-- The underline that has its first drawn cell here. -/
def opening? (c : Nat) : Option Underline := (d c).filter fun u => ∀ i < c, d i ≠ some u

/-- The underline that has its last drawn cell here, if there are `n` cells. -/
def closing? (n c : Nat) : Option Underline :=
  (d c).filter fun u => ∀ i < n, c < i → d i ≠ some u

/-- The cell in front of which the code stands that begins an underline, if this is the first drawn
cell of that: the last blank of the gap before it, if there is a gap and something is drawn in front
of that, or else the cell itself. -/
def seat (c : Nat) : Nat := if d.Begun c ∧ d (c - 1) = none then c - 1 else c

/-- The underlines that have the code that begins them in front of a cell. -/
def seated (c : Nat) : List Underline :=
  [c, c + 1].filterMap fun i => if d.seat i = c then d.opening? i else none

/-- The text of one of `n` cells, with codes: those in front of it, the glyph, and the code that
ends an underline. -/
def coloredCell (n c : Nat) : Text :=
  (d.seated c).flatMap (·.on) ++ d.glyph c ++ (d.closing? n c).elim [] (·.off)

/-- The text of one of `n` cells. -/
def cell (colored : Bool) (n c : Nat) : Text := if colored then d.coloredCell n c else d.glyph c

/-- The text of the cells from one up to another, of `n` in all. -/
def segment (colored : Bool) (n start stop : Nat) : Text :=
  (List.range' start (stop - start)).flatMap (d.cell colored n)

theorem cell_true (n c : Nat) : d.cell true n c = d.coloredCell n c := rfl

theorem segment_append {colored : Bool} {n a b c : Nat} (hab : a ≤ b) (hbc : b ≤ c) :
    d.segment colored n a b ++ d.segment colored n b c = d.segment colored n a c := by
  have happ := List.range'_append_1 (s := a) (m := b - a) (n := c - b)
  rw [show a + (b - a) = b by omega, show b - a + (c - b) = c - a by omega] at happ
  rw [segment, segment, segment, ← happ, List.flatMap_append]

/-- An underline has the cells from one up to another, and no others. -/
def Holds (u : Underline) (start stop : Nat) : Prop :=
  ∀ c, d c = some u ↔ start ≤ c ∧ c < stop

variable {d} {u : Underline} {s e n c : Nat}

/-! ## Codes -/

theorem Holds.opening (h : d.Holds u s e) (hc : s < e) : d.opening? s = some u := by
  rw [opening?, (h s).mpr ⟨Nat.le_refl s, hc⟩, Option.filter_some, if_pos]
  rw [decide_eq_true_iff]
  intro i hi hdrawn
  have := (h i).mp hdrawn
  omega

/-- Behind its first cell an underline does not begin. -/
theorem Holds.not_opening (h : d.Holds u s e) (hs : s < c) (hc : c < e) : d.opening? c = none := by
  rw [opening?, (h c).mpr ⟨by omega, hc⟩, Option.filter_some, if_neg]
  rw [decide_eq_true_iff]
  exact fun hfirst => hfirst s hs ((h s).mpr ⟨Nat.le_refl s, by omega⟩)

theorem Holds.closing (h : d.Holds u s e) (hs : s ≤ c) (hc : c + 1 = e) :
    d.closing? n c = some u := by
  rw [closing?, (h c).mpr ⟨hs, by omega⟩, Option.filter_some, if_pos]
  rw [decide_eq_true_iff]
  intro i _ hi hdrawn
  have := (h i).mp hdrawn
  omega

/-- In front of its last cell an underline does not end. -/
theorem Holds.not_closing (h : d.Holds u s e) (hs : s ≤ c) (hc : c + 1 < e) (hn : e ≤ n) :
    d.closing? n c = none := by
  rw [closing?, (h c).mpr ⟨hs, by omega⟩, Option.filter_some, if_neg]
  rw [decide_eq_true_iff]
  exact fun hlast => hlast (c + 1) (by omega) (by omega) ((h (c + 1)).mpr ⟨by omega, hc⟩)

theorem opening?_eq_none (h : d c = none) : d.opening? c = none := by
  rw [opening?, h, Option.filter_none]

theorem closing?_eq_none (h : d c = none) : d.closing? n c = none := by
  rw [closing?, h, Option.filter_none]

/-- In front of a drawn cell only the code of its own underline can stand. -/
theorem seated_of_drawn (h : d c ≠ none) :
    d.seated c = if d.seat c = c then (d.opening? c).toList else [] := by
  have hnext : d.seat (c + 1) ≠ c := by
    rw [seat, if_neg fun hgap => h hgap.2]
    omega
  rw [seated]
  cases hopen : d.opening? c <;> by_cases hseat : d.seat c = c <;> simp [hopen, hseat, hnext]

/-- In front of a blank cell the code stands of an underline that begins in the next one. -/
theorem seated_of_blank (h : d c = none) :
    d.seated c = if d.Begun c then (d.opening? (c + 1)).toList else [] := by
  have hbegun : d.Begun (c + 1) ↔ d.Begun c := by
    constructor
    · rintro ⟨i, hi, hdrawn⟩
      refine ⟨i, Nat.lt_of_le_of_ne (by omega) fun hic => ?_, hdrawn⟩
      rw [hic, h] at hdrawn
      cases hdrawn
    · rintro ⟨i, hi, hdrawn⟩
      exact ⟨i, by omega, hdrawn⟩
  have hseat : d.seat (c + 1) = c ↔ d.Begun c := by
    rw [seat, Nat.add_sub_cancel, ← hbegun]
    by_cases hc : d.Begun (c + 1) <;> simp [hc, h]
  rw [seated]
  cases hopen : d.opening? (c + 1) <;> by_cases hc : d.Begun c <;>
    simp [hopen, hseat, hc, opening?_eq_none h]

/-! ## Gaps -/

/-- Cells that nothing is drawn in, and that have no code in front, are blanks. -/
theorem segment_blank {colored : Bool} {a b : Nat}
    (h : ∀ c, a ≤ c → c < b → d.cell colored n c = [' ']) :
    d.segment colored n a b = Text.blanks ((b : Int) - a) := by
  have hcells : (List.range' a (b - a)).flatMap (d.cell colored n) =
      (List.range' a (b - a)).flatMap fun _ => [' '] := by
    refine List.flatMap_congr fun c hc => ?_
    rw [List.mem_range'_1] at hc
    exact h c hc.1 (by omega)
  rw [segment, hcells, Text.blanks, ← List.map_eq_flatMap, List.map_const', List.length_range']
  congr 1
  omega

theorem glyph_of_blank (h : d c = none) : d.glyph c = [' '] := by
  rw [glyph, h]
  rfl

/-- A blank cell without a code in front. -/
theorem coloredCell_of_blank (h : d c = none) (hnone : d.seated c = []) :
    d.coloredCell n c = [' '] := by
  rw [coloredCell, hnone, glyph_of_blank h, closing?_eq_none h]
  rfl

end Drawing

namespace UnderlineRow

open Drawing

variable {d : Drawing} {u : Underline} {column s e n : Nat}

theorem emit_gap_on (width : Int) (code : Text) :
    Row.emit true [Row.gap width, .on code] = Text.blanks width ++ code := by
  rw [Row.emit_cons, Row.emit_cons, Piece.emit_gap]
  simp [Row.emit, Piece.emit]

section Gap

variable (hgap : ∀ c, column ≤ c → c < s → d c = none)
  (hhere : ∀ c, column = c + 1 → (d c).isSome)

include hgap hhere

/-- In a gap something is drawn before iff the gap does not begin the row. -/
theorem begun_iff_of_gap {c : Nat} (hc : column ≤ c) (hcs : c ≤ s) : d.Begun c ↔ 0 < column := by
  constructor
  · rintro ⟨i, hi, hdrawn⟩
    by_contra hzero
    rw [hgap i (by omega) (by omega)] at hdrawn
    cases hdrawn
  · intro hpos
    exact ⟨column - 1, by omega, hhere (column - 1) (by omega)⟩

/-- The cells of a gap are mere blanks, but for the last one if something is drawn before. -/
theorem coloredCell_of_gap {c : Nat} (hc : column ≤ c) (hcs : c < s)
    (hlast : c + 1 < s ∨ column = 0) : d.coloredCell n c = [' '] := by
  refine coloredCell_of_blank (hgap c hc hcs) ?_
  rw [seated_of_blank (hgap c hc hcs)]
  rcases hlast with hlast | hzero
  · rw [opening?_eq_none (hgap (c + 1) (by omega) hlast)]
    simp
  · rw [if_neg]
    rw [begun_iff_of_gap hgap hhere hc (by omega)]
    omega

/-- A part of a gap is blank if it does not reach up to its end, or if nothing is drawn before. -/
theorem segment_gap {b : Nat} (hb : b < s ∨ b ≤ s ∧ column = 0) :
    d.segment true n column b = Text.blanks ((b : Int) - column) :=
  segment_blank fun _ hc hcb => coloredCell_of_gap hgap hhere hc (by omega) (by omega)

/-- The last blank of a gap has the code in front that begins the underline behind it, if something
is drawn before. -/
theorem segment_last (hu : d.Holds u s e) (he : s < e) (hpos : 0 < column) (hlt : column < s) :
    d.segment true n (s - 1) s = u.on ++ [' '] := by
  have hblank : d (s - 1) = none := hgap (s - 1) (by omega) (by omega)
  have hbegun : d.Begun (s - 1) :=
    (begun_iff_of_gap hgap hhere (by omega) (by omega)).mpr hpos
  rw [Drawing.segment, show s - (s - 1) = 1 by omega, List.range'_one, List.flatMap_singleton,
    cell_true, coloredCell, seated_of_blank hblank, if_pos hbegun, show s - 1 + 1 = s by omega,
    hu.opening he, glyph_of_blank hblank, closing?_eq_none hblank]
  simp

/-- **The gap in front of an underline**, and the code that begins it. -/
theorem emit_lead (hu : d.Holds u s e) (he : s < e) (hcolumn : column ≤ s) (colored : Bool) :
    (lead u ((s : Int) - column) (decide (0 < column))).emit colored =
      d.segment colored n column s ++ if colored then (d.seated s).flatMap (·.on) else [] := by
  cases colored with
  | false =>
    rw [Row.emit_false (hasSeat_lead u fun _ => by omega), cells_lead u (by omega),
      ← blanks_eq_flatten, segment_blank]
    · simp
    · exact fun c hc hcs => glyph_of_blank (hgap c hc hcs)
  | true =>
    have hseated : d.seated s = if d.seat s = s then [u] else [] := by
      rw [seated_of_drawn (by simp [(hu s).mpr ⟨Nat.le_refl s, he⟩]), hu.opening he]
      rfl
    have hbegun := begun_iff_of_gap hgap hhere hcolumn (Nat.le_refl s)
    rw [if_pos rfl, hseated]
    by_cases hgo : 0 < column ∧ column < s
    · -- The code stands in front of the last blank.
      have hseat : d.seat s = s - 1 :=
        if_pos ⟨hbegun.mpr hgo.1, hgap (s - 1) (by omega) (by omega)⟩
      have hsplit : d.segment true n column (s - 1) ++ d.segment true n (s - 1) s =
          d.segment true n column s := segment_append d (by omega) (by omega)
      have hblanks : d.segment true n column (s - 1) = Text.blanks ((s : Int) - column - 1) := by
        rw [segment_gap hgap hhere (Or.inl (by omega)),
          show ((s - 1 : Nat) : Int) - column = (s : Int) - column - 1 by omega]
      rw [hseat, if_neg (by omega), ← hsplit, hblanks,
        segment_last hgap hhere hu he hgo.1 hgo.2, lead, if_pos ⟨by simpa using hgo.1, by omega⟩]
      simp [Row.emit, Piece.emit]
    · -- There is no blank for the code to stand in front of, or nothing is drawn before.
      have hseat : d.seat s = s := by
        refine if_neg fun h => ?_
        have hpos := hbegun.mp h.1
        have hdrawn := hhere (s - 1) (by omega)
        rw [h.2] at hdrawn
        cases hdrawn
      have hnot : ¬ (decide (0 < column) = true ∧ (s : Int) - column ≠ 0) := by
        rw [decide_eq_true_iff]
        omega
      have hblanks : d.segment true n column s = Text.blanks ((s : Int) - column) := by
        rcases Nat.eq_or_lt_of_le hcolumn with rfl | hlt
        · exact segment_blank fun c hc hcs => by omega
        · exact segment_gap hgap hhere (Or.inr ⟨Nat.le_refl s, by omega⟩)
      rw [if_pos hseat, lead, if_neg hnot, emit_gap_on, hblanks]
      simp

end Gap

/-! ## Strokes -/

/-- A code in front of the first of some cells stands in front of them all. -/
theorem flatMap_range'_first (glyphs : Nat → Text) (code : Text) (s k : Nat) :
    ((List.range' s (k + 1)).flatMap fun c => (if c = s then code else []) ++ glyphs c) =
      code ++ (List.range' s (k + 1)).flatMap glyphs := by
  have hrest : ((List.range' (s + 1) k).flatMap fun c =>
      (if c = s then code else []) ++ glyphs c) = (List.range' (s + 1) k).flatMap glyphs := by
    refine List.flatMap_congr fun c hc => ?_
    rw [List.mem_range'_1] at hc
    rw [if_neg (by omega), List.nil_append]
  rw [List.range'_succ, List.flatMap_cons, List.flatMap_cons, hrest, if_pos rfl, List.append_assoc]

/-- A code behind the last of some cells stands behind them all. -/
theorem flatMap_range'_last (glyphs : Nat → Text) (code : Text) (s k : Nat) :
    ((List.range' s (k + 1)).flatMap fun c => glyphs c ++ if c = s + k then code else []) =
      (List.range' s (k + 1)).flatMap glyphs ++ code := by
  have hrest : ((List.range' s k).flatMap fun c =>
      glyphs c ++ if c = s + k then code else []) = (List.range' s k).flatMap glyphs := by
    refine List.flatMap_congr fun c hc => ?_
    rw [List.mem_range'_1] at hc
    rw [if_neg (by omega), List.append_nil]
  rw [List.range'_1_concat, List.flatMap_append, List.flatMap_append, hrest]
  simp

theorem cells_stroke_eq_map (u : Underline) (s k : Nat) (hstart : u.start = s) :
    Row.cells (u.stroke ((k + 1 : Nat) : Int)) =
      (List.range' s (k + 1)).map fun c : Nat => u.glyphAt c := by
  refine List.ext_getElem? fun i => ?_
  by_cases hi : i < k + 1
  · rw [getElem?_cells_stroke u (by omega), List.getElem?_map, List.getElem?_range' hi, hstart]
    simp
  · have hwidth : 0 < ((k + 1 : Nat) : Int) := by omega
    have hlength := length_cells_stroke u hwidth
    rw [List.getElem?_eq_none (by omega), List.getElem?_eq_none (by simp; omega)]

/-- A stroke has no codes in it. -/
theorem emit_stroke_eq (p : Pen) (width : Int) (colored : Bool) :
    (p.stroke width).emit colored = (Row.cells (p.stroke width)).flatten := by
  rw [← Row.emit_false (hasSeat_stroke p width), Pen.stroke]
  split <;> rfl

theorem glyph_of_holds (hu : d.Holds u s e) {c : Nat} (hs : s ≤ c) (he : c < e) :
    d.glyph c = u.glyphAt c := by
  rw [Drawing.glyph, (hu c).mpr ⟨hs, he⟩]
  rfl

/-- A cell of an underline. -/
theorem coloredCell_of_holds (hu : d.Holds u s e) (hn : e ≤ n) {c : Nat} (hs : s ≤ c)
    (he : c < e) : d.coloredCell n c =
      (if c = s then (d.seated s).flatMap (·.on) else []) ++
        (u.glyphAt c ++ if c + 1 = e then u.off else []) := by
  have hlead : (d.seated c).flatMap (·.on) = if c = s then (d.seated s).flatMap (·.on) else [] := by
    split
    · rename_i h
      rw [h]
    · rw [seated_of_drawn (by simp [(hu c).mpr ⟨hs, he⟩]), hu.not_opening (by omega) he]
      simp
  have hend : (d.closing? n c).elim [] (·.off) = if c + 1 = e then u.off else [] := by
    split
    · rw [hu.closing hs (by assumption)]
      rfl
    · rw [hu.not_closing hs (by omega) hn]
      rfl
  rw [Drawing.coloredCell, hlead, hend, glyph_of_holds hu hs he, List.append_assoc]

/-- **An underline**, with the codes in front of its first cell and behind its last one. -/
theorem emit_stroke (hu : d.Holds u s e) (he : s < e) (hn : e ≤ n) (hstart : u.start = s)
    (colored : Bool) :
    (if colored then (d.seated s).flatMap (·.on) else []) ++
      ((u.stroke ((e : Int) - s)).emit colored ++ if colored then u.off else []) =
      d.segment colored n s e := by
  obtain ⟨k, rfl⟩ : ∃ k, e = s + k + 1 := ⟨e - s - 1, by omega⟩
  rw [show ((s + k + 1 : Nat) : Int) - s = ((k + 1 : Nat) : Int) by omega, emit_stroke_eq,
    cells_stroke_eq_map u s k hstart, Drawing.segment, show s + k + 1 - s = k + 1 by omega,
    ← List.flatMap_def]
  cases colored with
  | false =>
    simp only [Bool.false_eq_true, if_false, List.nil_append, List.append_nil]
    refine List.flatMap_congr fun c hc => ?_
    rw [List.mem_range'_1] at hc
    exact (glyph_of_holds hu hc.1 (by omega)).symm
  | true =>
    rw [if_pos rfl, if_pos rfl, ← flatMap_range'_last, ← flatMap_range'_first]
    refine List.flatMap_congr fun c hc => ?_
    rw [List.mem_range'_1] at hc
    rw [cell_true, coloredCell_of_holds hu hn hc.1 (by omega)]
    simp only [Nat.add_right_cancel_iff]

end UnderlineRow

end Marginalia
