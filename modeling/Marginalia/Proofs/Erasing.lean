import Marginalia.Proofs.Report
import Marginalia.Proofs.TextRow
import Marginalia.Proofs.UnderlineRow

/-!
# Colour never changes the layout

Where codes are made up of code points that nothing else on a line has, they can be told from what
is shown, and taken away again. What is left of a coloured row is the plain row, piece by piece
(`Row.without_emit`): a code takes up no room, and where it divides a gap the two parts are as wide
as the whole. An underline row is there with colour iff it is there without
(`Line.isEmpty_showUnderline`), so no row comes or goes.

Results:
* `Line.without_showText`, `Line.without_beneath`: the rows of a line, each with its codes taken
  away.
* `Report.without_render`: a whole report, and the picture of a line.
-/

namespace Marginalia

namespace Text

/-- A text without certain code points. -/
def without (S : Char → Bool) (t : Text) : Text := t.filter fun c => !S c

/-- A text that has none of certain code points. -/
def Free (S : Char → Bool) (t : Text) : Prop := ∀ c ∈ t, S c = false

/-- A text that has no others than certain code points. -/
def Made (S : Char → Bool) (t : Text) : Prop := ∀ c ∈ t, S c = true

instance (S : Char → Bool) (t : Text) : Decidable (t.Free S) :=
  List.decidableBAll (fun c => S c = false) t

instance (S : Char → Bool) (t : Text) : Decidable (t.Made S) :=
  List.decidableBAll (fun c => S c = true) t

variable {S : Char → Bool} {t u : Text}

@[simp] theorem without_nil : without S [] = [] := rfl

@[simp] theorem without_append (t u : Text) : without S (t ++ u) = without S t ++ without S u :=
  List.filter_append t u

theorem Free.without_eq (h : t.Free S) : without S t = t :=
  List.filter_eq_self.mpr fun c hc => by rw [h c hc]; rfl

theorem Made.without_eq (h : t.Made S) : without S t = [] :=
  List.filter_eq_nil_iff.mpr fun c hc => by simp [h c hc]

theorem Free.append (ht : t.Free S) (hu : u.Free S) : (t ++ u).Free S := fun c hc =>
  (List.mem_append.mp hc).elim (ht c) (hu c)

theorem free_blanks (h : S ' ' = false) (n : Int) : (blanks n).Free S := fun c hc => by
  rw [List.eq_of_mem_replicate hc, h]

theorem Free.repeated (h : t.Free S) (n : Int) : (t.repeated n).Free S := by
  rw [repeated_eq_flatten]
  intro c hc
  obtain ⟨u, hu, hc⟩ := List.mem_flatten.mp hc
  rw [List.eq_of_mem_replicate hu] at hc
  exact h c hc

end Text

/-- Code points that a report writes by itself are not among some others: blanks and line feeds, the
digits and signs of line numbers, and the separator of the gutter. -/
structure OffLayout (S : Char → Bool) : Prop where
  blank : S ' ' = false
  feed : S '\n' = false
  digit : ∀ c : Char, c.isDigit → S c = false
  minus : S '-' = false
  bar : S '|' = false

/-- All codes on a line are made up of certain code points, nothing that is shown of it has any of
these, and its underlines are drawn with glyphs that show. -/
structure Line.Separates (S : Char → Bool) (l : Line) : Prop where
  text : l.text.Free S
  tints : ∀ t ∈ l.tints, t.on.Made S ∧ t.off.Made S
  codes : ∀ u ∈ l.underlines, u.on.Made S ∧ u.off.Made S
  glyphs : ∀ u ∈ l.underlines, u.fill.Free S ∧ (∀ tip ∈ u.tip, tip.Free S) ∧ u.hint.Free S
  shows : ∀ u ∈ l.underlines, u.fill ≠ [] ∧ u.tip ≠ some []

variable {S : Char → Bool}

theorem OffLayout.free_decimal (hS : OffLayout S) (n : Int) : (Text.decimal n).Free S := by
  have hdigits : (Text.digits n.natAbs).Free S := fun c hc =>
    hS.digit c (Nat.isDigit_of_mem_toDigits (by decide) (by decide) hc)
  unfold Text.decimal
  split
  · intro c hc
    rcases List.mem_cons.mp hc with rfl | hc
    · exact hS.minus
    · exact hdigits c hc
  · exact hdigits

theorem OffLayout.free_separator (hS : OffLayout S) : Style.separator.Free S := by
  intro c hc
  simp only [Style.separator, List.mem_cons, List.not_mem_nil, or_false] at hc
  rcases hc with rfl | rfl
  · exact hS.bar
  · exact hS.blank

theorem OffLayout.without_stack (hS : OffLayout S) (rows : List Text) :
    Text.without S (Text.stack rows) = Text.stack (rows.map (Text.without S)) := by
  have hfeed : Text.without S ['\n'] = ['\n'] := by simp [Text.without, hS.feed]
  unfold Text.stack
  induction rows with
  | nil => rfl
  | cons row rows ih =>
    cases rows with
    | nil => simp [List.intercalate]
    | cons next rows =>
      rw [List.intercalate_cons_cons, Text.without_append, Text.without_append, hfeed, ih]
      simp only [List.map_cons, List.intercalate_cons_cons]

/-! ## Pieces of a row -/

/-- What a piece shows has none of certain code points, and its codes have no others. -/
def Piece.Separates (S : Char → Bool) : Piece → Prop
  | .glyphs t => t.Free S
  | .run t _ => t.Free S
  | .leadIn _ code => code.Made S
  | .on code => code.Made S
  | .off code => code.Made S

theorem Piece.without_emit (hblank : S ' ' = false) {p : Piece} (h : p.Separates S)
    (hseat : p.HasSeat) : Text.without S (p.emit true) = p.emit false := by
  cases p with
  | glyphs t => exact Text.Free.without_eq h
  | run t times => exact (Text.Free.repeated h times).without_eq
  | leadIn width code =>
    have hcode : Text.without S code = [] := Text.Made.without_eq h
    have hlast : Text.Free S [' '] := by simpa [Text.Free] using hblank
    simp [emit, hcode, hlast.without_eq, (Text.free_blanks hblank _).without_eq,
      blanks_eq_append hseat]
  | on code => exact Text.Made.without_eq h
  | off code => exact Text.Made.without_eq h

/-- **What is left of a coloured row is the plain row.** -/
theorem Row.without_emit (hblank : S ' ' = false) {row : Row} (h : ∀ p ∈ row, p.Separates S)
    (hseat : ∀ p ∈ row, p.HasSeat) : Text.without S (row.emit true) = row.emit false := by
  induction row with
  | nil => rfl
  | cons p row ih =>
    rw [List.forall_mem_cons] at h hseat
    show Text.without S (p.emit true ++ Row.emit true row) = p.emit false ++ Row.emit false row
    rw [Text.without_append, Piece.without_emit hblank h.1 hseat.1, ih h.2 hseat.2]

/-! ## The text row -/

namespace TextRow

theorem mem_of_mem_eraseReps {code : Text} {codes : List Text} (h : code ∈ codes.eraseReps) :
    code ∈ codes := by
  have mem_of_mem_loop : ∀ (codes : List Text) (last : Text) (acc : List Text),
      code ∈ List.eraseRepsBy.loop (· == ·) last codes acc → code ∈ last :: codes ∨ code ∈ acc := by
    intro codes
    induction codes with
    | nil =>
      intro last acc h
      simpa [List.eraseRepsBy.loop, or_comm] using h
    | cons next codes ih =>
      intro last acc h
      rw [List.eraseRepsBy.loop] at h
      split at h
      · have hmem := ih last acc h
        grind
      · have hmem := ih next (last :: acc) h
        grind
  cases codes with
  | nil => exact h
  | cons last codes => simpa using mem_of_mem_loop codes last [] h

variable {tints : List Tint}

theorem separates_opening (h : ∀ t ∈ tints, t.on.Made S ∧ t.off.Made S) :
    ∀ p ∈ opening tints, p.Separates S := by
  intro p hp
  obtain ⟨t, ht, rfl⟩ := List.mem_map.mp hp
  exact (h t ht).1

theorem separates_closing (h : ∀ t ∈ tints, t.on.Made S ∧ t.off.Made S) :
    ∀ p ∈ closing tints, p.Separates S := by
  intro p hp
  obtain ⟨code, hcode, rfl⟩ := List.mem_map.mp hp
  obtain ⟨t, ht, rfl⟩ := List.mem_map.mp (mem_of_mem_eraseReps hcode)
  exact (h t ht).2

theorem separates_scan : ∀ {text : Text} {i : Int} {opened coming : List Tint}, text.Free S →
    (∀ t ∈ opened, t.on.Made S ∧ t.off.Made S) → (∀ t ∈ coming, t.on.Made S ∧ t.off.Made S) →
    ∀ p ∈ scan text i opened coming, p.Separates S
  | [], _, _, _, _, hopened, _, p, hp => separates_closing hopened p hp
  | c :: rest, i, opened, coming, htext, hopened, hcoming, p, hp => by
    have hkept : ∀ t ∈ opened.filter (·.stop ≠ i), t.on.Made S ∧ t.off.Made S :=
      fun t ht => hopened t (List.mem_filter.mp ht).1
    have hended : ∀ t ∈ opened.filter (·.stop = i), t.on.Made S ∧ t.off.Made S :=
      fun t ht => hopened t (List.mem_filter.mp ht).1
    have hbegun : ∀ t ∈ coming.takeWhile (·.start = i), t.on.Made S ∧ t.off.Made S :=
      fun t ht => hcoming t ((List.takeWhile_sublist _).subset ht)
    have hlater : ∀ t ∈ coming.dropWhile (·.start = i), t.on.Made S ∧ t.off.Made S :=
      fun t ht => hcoming t ((List.dropWhile_sublist _).subset ht)
    rw [scan] at hp
    simp only [List.mem_append, List.mem_cons] at hp
    rcases hp with ((hp | hp) | hp) | rfl | hp
    · exact separates_closing hended p hp
    · split at hp
      · cases hp
      · exact separates_opening hkept p hp
    · exact separates_opening hbegun p hp
    · exact fun d hd => htext d (List.mem_singleton.mp hd ▸ List.mem_cons_self)
    · refine separates_scan (fun d hd => htext d (List.mem_cons_of_mem c hd)) (fun t ht => ?_)
        hlater p hp
      exact (List.mem_append.mp ht).elim (hkept t) (hbegun t)

end TextRow

/-! ## The rows beneath -/

namespace UnderlineRow

theorem separates_lead {u : Underline} (hon : u.on.Made S) (hblank : S ' ' = false) (gap : Int)
    (drawn : Bool) : ∀ p ∈ lead u gap drawn, p.Separates S := by
  intro p hp
  unfold lead at hp
  split at hp
  · rw [List.mem_singleton.mp hp]
    exact hon
  · simp only [List.mem_cons, List.not_mem_nil, or_false] at hp
    rcases hp with rfl | rfl
    · exact (Text.free_blanks hblank 1 : Text.Free S [' '])
    · exact hon

theorem separates_stroke {u : Underline} (hfill : u.fill.Free S)
    (htip : ∀ tip ∈ u.tip, tip.Free S) (width : Int) : ∀ p ∈ u.stroke width, p.Separates S := by
  intro p hp
  unfold Pen.stroke at hp
  split at hp
  · cases hp
  · simp only [List.mem_cons, List.not_mem_nil, or_false] at hp
    rcases hp with rfl | rfl
    · show u.head.Free S
      unfold Pen.head
      cases htip' : u.tip with
      | none => exact hfill
      | some tip => exact htip tip htip'
    · exact hfill

theorem separates_paint {l : Line} (h : l.Separates S) (hblank : S ' ' = false) :
    ∀ {ps : List (Underline × Int)} {column : Int} {drawn : Bool},
    (∀ p ∈ ps, p.1 ∈ l.underlines) → ∀ p ∈ paint ps column drawn, p.Separates S
  | [], _, _, _, p, hp => by cases hp
  | (u, stop) :: rest, column, drawn, hps, p, hp => by
    have hu : u ∈ l.underlines := hps (u, stop) List.mem_cons_self
    have hrest : ∀ q ∈ rest, q.1 ∈ l.underlines := fun q hq => hps q (List.mem_cons_of_mem _ hq)
    rw [paint] at hp
    split at hp
    · exact separates_paint h hblank hrest p hp
    · simp only [List.mem_append, List.mem_cons] at hp
      rcases hp with (hp | hp) | rfl | hp
      · exact separates_lead (h.codes u hu).1 hblank _ _ p hp
      · exact separates_stroke (h.glyphs u hu).1 (h.glyphs u hu).2.1 _ p hp
      · exact (h.codes u hu).2
      · exact separates_paint h hblank hrest p hp

/-- A row on which anything is drawn has a glyph that shows. -/
theorem emit_paint_eq_nil {us : List Underline} (hshows : ∀ u ∈ us, u.fill ≠ [] ∧ u.tip ≠ some []) :
    ∀ {ps : List (Underline × Int)} {column : Int} {drawn : Bool}, (∀ p ∈ ps, p.1 ∈ us) →
    Row.emit false (paint ps column drawn) = [] → paint ps column drawn = []
  | [], _, _, _, _ => rfl
  | (u, stop) :: rest, column, drawn, hps, hnil => by
    have hrest : ∀ q ∈ rest, q.1 ∈ us := fun q hq => hps q (List.mem_cons_of_mem _ hq)
    rw [paint] at hnil ⊢
    split at hnil
    · rw [if_pos ‹_›]
      exact emit_paint_eq_nil hshows hrest hnil
    · rename_i hwidth
      have hhead : u.head ≠ [] := by
        obtain ⟨hfill, htip⟩ := hshows u (hps (u, stop) List.mem_cons_self)
        unfold Pen.head
        cases htip' : u.tip with
        | none => exact hfill
        | some tip => exact fun hnil => htip (by rw [htip']; exact congrArg some hnil)
      rw [Pen.stroke, if_neg (by omega)] at hnil
      simp only [Row.emit, List.flatMap_eq_nil_iff] at hnil
      exact absurd (hnil (.glyphs u.head) (by simp)) hhead

end UnderlineRow

namespace Line

variable {l : Line}

theorem without_showText (hblank : S ' ' = false) (h : l.Separates S) :
    Text.without S (l.showText true) = l.showText false := by
  refine Row.without_emit hblank (TextRow.separates_scan h.text (by simp) fun t ht => ?_)
    (TextRow.hasSeat_scan _ _ _ _)
  exact h.tints t ((mem_inOrder _).mp (List.mem_filter.mp ht).1)

theorem mem_underlines_of_mem_giveWay {p : Underline × Int}
    (hp : p ∈ UnderlineRow.giveWay (inOrder (·.start) l.underlines)) : p.1 ∈ l.underlines :=
  (mem_inOrder _).mp (UnderlineRow.fst_mem_of_mem_giveWay hp)

theorem without_showUnderline (hblank : S ' ' = false) (h : l.Separates S) :
    Text.without S (l.showUnderline true) = l.showUnderline false :=
  Row.without_emit hblank
    (UnderlineRow.separates_paint h hblank fun _ hp => mem_underlines_of_mem_giveWay hp)
    l.hasSeat_underlineRow

/-- **There is an underline row with colour iff there is one without.** -/
theorem isEmpty_showUnderline (hblank : S ' ' = false) (h : l.Separates S) :
    (l.showUnderline true).isEmpty = (l.showUnderline false).isEmpty := by
  rw [Bool.eq_iff_iff, List.isEmpty_iff, List.isEmpty_iff]
  constructor
  · intro hnil
    rw [← without_showUnderline hblank h, hnil, Text.without_nil]
  · intro hnil
    have hrow : l.underlineRow = [] := UnderlineRow.emit_paint_eq_nil h.shows
      (fun _ hp => mem_underlines_of_mem_giveWay hp) hnil
    rw [showUnderline, hrow]
    rfl

theorem without_showHints (hblank : S ' ' = false) (h : l.Separates S) :
    (l.showHints true).map (Text.without S) = l.showHints false := by
  simp only [showHints, hintRows, List.map_map]
  refine List.map_congr_left fun u hu => ?_
  have hu : u ∈ l.underlines := (mem_inOrder _).mp (List.mem_filter.mp hu).1
  refine Row.without_emit hblank (fun p hp => ?_)
    (by simp [Underline.hintRow, Row.gap, Piece.HasSeat])
  simp only [Underline.hintRow, List.mem_cons, List.not_mem_nil, or_false] at hp
  rcases hp with rfl | rfl | rfl | rfl
  · exact (Text.free_blanks hblank 1 : Text.Free S [' '])
  · exact (h.codes u hu).1
  · exact (h.glyphs u hu).2.2
  · exact (h.codes u hu).2

/-- **The rows beneath a line are as many with colour as without**, and the same but for codes. -/
theorem without_beneath (hblank : S ' ' = false) (h : l.Separates S) :
    (l.beneath true).map (Text.without S) = l.beneath false := by
  simp only [beneath, isEmpty_showUnderline hblank h, List.map_append, without_showHints hblank h]
  congr 1
  split
  · rfl
  · simp only [List.map_cons, List.map_nil, without_showUnderline hblank h]

theorem without_indent_beneath (hblank : S ' ' = false) (h : l.Separates S) (indent : Int) :
    ((l.beneath true).map (Text.blanks indent ++ ·)).map (Text.without S) =
      (l.beneath false).map (Text.blanks indent ++ ·) := by
  rw [← without_beneath hblank h, List.map_map, List.map_map]
  refine List.map_congr_left fun row _ => ?_
  simp only [Function.comp_apply, Text.without_append, (Text.free_blanks hblank indent).without_eq]

theorem without_picture (hS : OffLayout S) (h : l.Separates S) :
    Text.without S (l.picture true) = l.picture false := by
  have hgutter : l.gutter.Free S := by
    unfold gutter
    split
    · refine (hS.free_decimal l.number).append fun c hc => ?_
      rcases List.mem_cons.mp hc with rfl | hc
      · exact hS.blank
      · exact hS.free_separator c hc
    · simp [Text.Free]
  simp only [picture]
  rw [hS.without_stack, List.map_cons, Text.without_append, hgutter.without_eq,
    without_showText hS.blank h, without_indent_beneath hS.blank h]

end Line

namespace Report

theorem without_blockRows (hS : OffLayout S) (r : Report Line) {l : Line} (h : l.Separates S) :
    (blockRows { r with color := true } l).map (Text.without S) =
      blockRows { r with color := false } l := by
  cases hl : l.numbered with
  | true =>
    have hgutter : (gutter { r with color := true } (Text.decimal l.number)).Free S :=
      ((hS.free_decimal l.number).append (Text.free_blanks hS.blank _)).append hS.free_separator
    rw [blockRows_numbered hl, blockRows_numbered hl, List.map_cons, Text.without_append,
      hgutter.without_eq, Line.without_showText hS.blank h, Line.without_indent_beneath hS.blank h]
    rfl
  | false =>
    have hempty : (if r.indentAll then Text.blanks r.gutterWidth ++ Style.separator
        else []).Free S := by
      split
      · exact (Text.free_blanks hS.blank _).append hS.free_separator
      · simp [Text.Free]
    rw [blockRows_unnumbered hl, blockRows_unnumbered hl, List.map_singleton, Text.without_append,
      Line.without_showText hS.blank h]
    exact congrArg (fun lead => [lead ++ l.showText false]) hempty.without_eq

/-- **Colour never changes the layout.** Let the codes on the lines of a report be made up of code
points that neither stand in what those lines show nor are written by the report itself. Whatever
the lines hold besides, the coloured text of the report becomes the plain one when these code points
are taken out, and so does the picture of a line by itself. -/
theorem without_render (hS : OffLayout S) :
    (∀ r : Report Line, (∀ l ∈ r.blocks, l.Separates S) →
      Text.without S (render { r with color := true }) = render { r with color := false }) ∧
    ∀ l : Line, l.Separates S → Text.without S (l.picture true) = l.picture false := by
  refine ⟨fun r h => ?_, fun l h => l.without_picture hS h⟩
  have hrows : ((rows { r with color := true }).map (Text.without S)) =
      rows { r with color := false } := by
    rw [rows, rows, List.map_flatMap, List.flatMap_def, List.flatMap_def]
    exact congrArg List.flatten (List.map_congr_left fun l hl => without_blockRows hS r (h l hl))
  rw [render, hS.without_stack, hrows, render]

/-- Codes that are one control character each. -/
theorem offLayout_shifts : OffLayout fun c => c == '\x0e' || c == '\x0f' where
  blank := by decide
  feed := by decide
  digit := by
    intro c hc
    simp only [Bool.or_eq_false_iff, beq_eq_false_iff_ne]
    constructor <;> rintro rfl <;> cases hc
  minus := by decide
  bar := by decide

-- The tints cross each other, so that codes are written in the middle of the text, and the second
-- underline has a gap in front of it that its code divides.
theorem without_render_crossing_tints :
    let S : Char → Bool := fun c => c == '\x0e' || c == '\x0f'
    let l : Line :=
      { text := ['a', 'b', 'c', 'd'], numbered := true, number := 7
        tints := [{ start := 0, stop := 2, on := ['\x0e'], off := ['\x0f'] },
          { start := 1, stop := 4, on := ['\x0e', '\x0e'], off := ['\x0f'] }]
        underlines := [{ start := 0, stop := 1, on := ['\x0e'], off := ['\x0f'], hint := ['?'] },
          { start := 3, stop := 4, on := ['\x0e'], off := ['\x0f'] }] }
    let r : Report Line := { indentAll := true, blocks := [{ text := ['n'] }, l] }
    OffLayout S ∧ (∀ l ∈ r.blocks, l.Separates S) ∧
      Text.without S (render { r with color := true }) = render { r with color := false } ∧
      Text.without S (l.picture true) = l.picture false := by
  intro S l r
  have hl : l.Separates S :=
    { text := by decide, tints := by decide, codes := by decide, glyphs := by decide,
      shows := by decide }
  have hr : ∀ l ∈ r.blocks, l.Separates S := by
    intro l' hl'
    rcases List.mem_cons.mp hl' with rfl | hl'
    · exact ⟨by decide, by decide, by decide, by decide, by decide⟩
    · rw [List.mem_singleton.mp hl']
      exact hl
  exact ⟨offLayout_shifts, hr, (without_render offLayout_shifts).1 r hr,
    (without_render offLayout_shifts).2 l hl⟩

end Report

end Marginalia
