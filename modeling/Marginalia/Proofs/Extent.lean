import Marginalia.Proofs.Digits
import Marginalia.Proofs.Report
import Marginalia.Proofs.UnderlineRow

/-!
# What can be written of a report

A report is refused for the number that its gutter is measured by, or for a row that there is no
room for. Rows come from underlines: where those fit (`Underline.Fits`), only the gutter is left to
be refused for, since it is measured by a number that is no smaller than any in the report.

Results:
* `Line.rowExcess?_of_fits`: underlines that fit can be drawn.
* `Report.excess?_of_fits`: a report of such lines is refused for its gutter or not at all.
* `Report.excess?_isExcess`: all that a report can be refused for.
-/

namespace Marginalia

namespace Text

/-- Where a number cannot be written, a larger one cannot be either. -/
theorem decimalExcess?_of_le {m n : Int} {e : Fault} (h : decimalExcess? m = some e)
    (hle : m.natAbs ≤ n.natAbs) : decimalExcess? n = some e := by
  have hmono := digitCount_mono hle
  rw [decimalExcess?] at h ⊢
  split at h
  · rw [if_pos (by omega), h]
  · cases h

/-- A glyph of ASCII, or none at all. -/
structure Slim (t : Text) : Prop where
  length : t.length ≤ 1
  ascii : ∀ c ∈ t, c.toNat < 0x80

theorem slim_singleton {c : Char} (h : c.toNat < 0x80) : Slim [c] :=
  ⟨Nat.le_refl 1, List.forall_mem_singleton.mpr h⟩

theorem slim_blank : Slim [' '] := slim_singleton (by decide)

/-- **There is room for a slim glyph** as often as there is for a character of any text. -/
theorem Slim.excess?_eq_none {t : Text} {times : Int} (ht : t.Slim) (h : times ≤ lengthLimit) :
    t.excess? times = none := by
  have hlimit : (lengthLimit : Int) ≤ indexLimit := by decide
  have hlength : t.length * times ≤ lengthLimit := by
    have hone := ht.length
    obtain h0 | h1 : t.length = 0 ∨ t.length = 1 := by omega
    · rw [h0]
      omega
    · rw [h1]
      omega
  rw [excess?, lengthLimitOf_of_ascii ht.ascii, if_neg (by omega), if_neg (by omega),
    if_neg (by omega)]

end Text

/-- An underline that there is room for. It begins no further to the right than a text can go and is
at most one cell wider, since its first glyph is not repeated; its other glyphs are slim. -/
structure Underline.Fits (u : Underline) : Prop where
  start : 0 ≤ u.start
  indent : u.start ≤ Text.lengthLimit
  width : u.stop - u.start ≤ Text.lengthLimit + 1
  fill : u.fill.Slim

/-- There is room for a mark that goes no further than a line that there is room for. -/
theorem Severity.fits_beneath (sev : Severity) {column : Int} {length : Nat} (h0 : 0 ≤ column)
    (hcolumn : column ≤ Text.lengthLimit) (hlength : length ≤ Text.lengthLimit) (width : Int)
    (hint : Text) :
    (sev.pen.beneath ⟨column, column + max 1 (min width (length - column))⟩ hint).Fits := by
  have hfill : sev.pen.fill.Slim := by cases sev <;> exact Text.slim_singleton (by decide)
  refine ⟨h0, hcolumn, ?_, hfill⟩
  simp only [Pen.beneath]
  omega

/-- What a text, a number or a report is refused for when it cannot be written. -/
def Fault.IsExcess (e : Fault) : Prop :=
  e = .countBeyondIndex ∨ e = .lengthBeyondIndex ∨ e = .outOfMemory ∨ e = .numberTooLong

instance (e : Fault) : Decidable e.IsExcess := inferInstanceAs (Decidable (_ ∨ _))

namespace UnderlineRow

theorem snd_le_of_mem_giveWay : ∀ {us : List Underline} {p : Underline × Int},
    p ∈ giveWay us → p.2 ≤ p.1.stop
  | [u], p, h => by
    rw [giveWay, List.mem_singleton] at h
    subst h
    exact Int.le_refl _
  | u :: v :: rest, p, h => by
    rw [giveWay] at h
    rcases List.mem_cons.mp h with rfl | h
    · exact Int.min_le_left u.stop v.start
    · exact snd_le_of_mem_giveWay h

variable {colored : Bool}

theorem lead_excess? {u : Underline} {gap : Int} (h : gap ≤ Text.lengthLimit) (drawn : Bool) :
    ∀ q ∈ lead u gap drawn, q.excess? colored = none := by
  intro q hq
  unfold lead at hq
  split at hq
  · rw [List.mem_singleton.mp hq]
    cases colored
    · exact Text.slim_blank.excess?_eq_none h
    · exact Text.slim_blank.excess?_eq_none (show gap - 1 ≤ (Text.lengthLimit : Int) by omega)
  · rcases List.mem_cons.mp hq with rfl | hq
    · exact Text.slim_blank.excess?_eq_none h
    · rw [List.mem_singleton.mp hq]
      rfl

theorem stroke_excess? {p : Pen} {width : Int} (hfill : p.fill.Slim)
    (h : width ≤ Text.lengthLimit + 1) : ∀ q ∈ p.stroke width, q.excess? colored = none := by
  intro q hq
  unfold Pen.stroke at hq
  split at hq
  · cases hq
  · rcases List.mem_cons.mp hq with rfl | hq
    · rfl
    · rw [List.mem_singleton.mp hq]
      exact hfill.excess?_eq_none (show width - 1 ≤ (Text.lengthLimit : Int) by omega)

/-- There is room for a row of underlines that fit, wherever it is begun. -/
theorem paint_excess? : ∀ {ps : List (Underline × Int)} {column : Int} {drawn : Bool},
    0 ≤ column → (∀ p ∈ ps, p.1.Fits ∧ p.2 ≤ p.1.stop) →
    ∀ q ∈ paint ps column drawn, q.excess? colored = none
  | [], _, _, _, _, q, hq => by cases hq
  | (u, stop) :: rest, column, drawn, hcolumn, h, q, hq => by
    obtain ⟨hfits, hstop⟩ := h (u, stop) List.mem_cons_self
    have hrest : ∀ p ∈ rest, p.1.Fits ∧ p.2 ≤ p.1.stop :=
      fun p hp => h p (List.mem_cons_of_mem _ hp)
    have hstart : 0 ≤ u.start := hfits.start
    have hindent : u.start ≤ Text.lengthLimit := hfits.indent
    have hwidth : u.stop - u.start ≤ Text.lengthLimit + 1 := hfits.width
    have hstop : stop ≤ u.stop := hstop
    rw [paint] at hq
    split at hq
    · exact paint_excess? hcolumn hrest q hq
    · simp only [List.mem_append, List.mem_cons] at hq
      rcases hq with (hq | hq) | rfl | hq
      · exact lead_excess? (by omega) drawn q hq
      · exact stroke_excess? hfits.fill (by omega) q hq
      · rfl
      · exact paint_excess? (by omega) hrest q hq

end UnderlineRow

namespace Line

/-- **There is room for the rows beneath a line whose underlines fit.** -/
theorem rowExcess?_of_fits {l : Line} (h : ∀ u ∈ l.underlines, u.Fits) (colored : Bool) :
    l.rowExcess? colored = none := by
  have hsorted : ∀ u ∈ inOrder (·.start) l.underlines, u.Fits :=
    fun u hu => h u ((mem_inOrder _).mp hu)
  rw [rowExcess?, List.findSome?_eq_none_iff]
  intro row hrow
  rw [Row.excess?, List.findSome?_eq_none_iff]
  rcases List.mem_cons.mp hrow with rfl | hrow
  · exact UnderlineRow.paint_excess? (Int.le_refl 0) fun p hp =>
      ⟨hsorted p.1 (UnderlineRow.fst_mem_of_mem_giveWay hp), UnderlineRow.snd_le_of_mem_giveWay hp⟩
  · obtain ⟨u, hu, rfl⟩ := List.mem_map.mp hrow
    have hfits := hsorted u (List.mem_filter.mp hu).1
    intro q hq
    simp only [Underline.hintRow, List.mem_cons, List.not_mem_nil, or_false] at hq
    rcases hq with rfl | rfl | rfl | rfl
    · exact Text.slim_blank.excess?_eq_none hfits.indent
    · rfl
    · rfl
    · rfl

end Line

namespace Report

variable {r : Report Line}

/-- **A report of lines whose underlines fit is refused for its gutter or not at all**, if the
number that measures the gutter is no smaller than those of the lines. -/
theorem excess?_of_fits (hfits : ∀ l ∈ r.shown, ∀ u ∈ l.underlines, u.Fits)
    (hnumber : ∀ l ∈ r.shown, 0 ≤ l.number ∧ l.number ≤ r.firstNumber + r.numbering.cursor) :
    r.excess? = Text.decimalExcess? (r.firstNumber + r.numbering.cursor) := by
  rw [excess?]
  cases hgutter : Text.decimalExcess? (r.firstNumber + r.numbering.cursor) with
  | some e => rfl
  | none =>
    rw [Option.none_or, List.findSome?_eq_none_iff]
    intro l hl
    have hbound := hnumber l hl
    have hshort : Text.decimalExcess? l.number = none := by
      rw [Text.decimalExcess?_eq_none_iff] at hgutter ⊢
      exact Nat.le_trans (Text.digitCount_mono (by omega)) hgutter
    rw [Line.excess?, Line.rowExcess?_of_fits (hfits l hl), hshort]
    split <;> rfl

end Report

/-! ## What a report is refused for -/

theorem Text.excess?_isExcess {t : Text} {times : Int} {e : Fault} (h : t.excess? times = some e) :
    e.IsExcess := by
  unfold Text.excess? at h
  split at h
  · cases h
    decide
  · split at h
    · cases h
      decide
    · split at h
      · cases h
        decide
      · cases h

theorem Text.decimalExcess?_isExcess {n : Int} {e : Fault} (h : decimalExcess? n = some e) :
    e.IsExcess := by
  rw [decimalExcess?_eq_some h]
  decide

theorem Row.excess?_isExcess {row : Row} {colored : Bool} {e : Fault}
    (h : row.excess? colored = some e) : e.IsExcess := by
  obtain ⟨p, -, hp⟩ := List.exists_of_findSome?_eq_some h
  cases p with
  | run t times => exact Text.excess?_isExcess hp
  | leadIn width code => exact Text.excess?_isExcess hp
  | glyphs t => cases hp
  | on code => cases hp
  | off code => cases hp

theorem Line.excess?_isExcess {l : Line} {colored : Bool} {e : Fault}
    (h : l.excess? colored = some e) : e.IsExcess := by
  rw [Line.excess?, Option.or_eq_some_iff] at h
  rcases h with h | ⟨-, h⟩
  · split at h
    · exact Text.decimalExcess?_isExcess h
    · cases h
  · obtain ⟨row, -, hrow⟩ := List.exists_of_findSome?_eq_some h
    exact Row.excess?_isExcess hrow

/-- **All that a report is refused for** is that something about it cannot be written. -/
theorem Report.excess?_isExcess {r : Report Line} {e : Fault} (h : r.excess? = some e) :
    e.IsExcess := by
  rw [Report.excess?, Option.or_eq_some_iff] at h
  rcases h with h | ⟨-, h⟩
  · exact Text.decimalExcess?_isExcess h
  · obtain ⟨l, -, hl⟩ := List.exists_of_findSome?_eq_some h
    exact Line.excess?_isExcess hl

end Marginalia
