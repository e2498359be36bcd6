import Marginalia.Line.Picture
import Marginalia.Proofs.Annotating
import Marginalia.Proofs.Order
import Marginalia.Proofs.Terminal

/-!
# What is drawn of an underline

In order of their starts, each underline gives way to the next where that one begins. The row is
painted from left to right with the column up to which it has come: no underline still to be painted
begins before that column, so every gap is as wide as it should be and each underline stands beneath
its own cells (`UnderlineRow.cells_paint`). Underlines that stand apart lose no more than their last
cell in this way, and that only to an underline that begins there.

Results:
* `Line.drawn_of_sound`: what is drawn of each underline of a sound line.
* `Line.underlines_attemptAll`: nothing that was accepted is lost on a line that was annotated step
  by step.
* `Line.getElem?_showUnderline`: where every glyph has one character, an underline is drawn in the
  columns that it covers.
-/

namespace Marginalia

/-- The glyph that an underline has for one of its cells. -/
def Underline.glyphAt (u : Underline) (c : Int) : Text := if c = u.start then u.head else u.fill

namespace UnderlineRow

/-! ## Giving way -/

theorem fst_mem_of_mem_giveWay : ∀ {us : List Underline} {p : Underline × Int},
    p ∈ giveWay us → p.1 ∈ us
  | [u], p, h => by
    rw [giveWay, List.mem_singleton] at h
    simp [h]
  | u :: v :: rest, p, h => by
    rw [giveWay] at h
    rcases List.mem_cons.mp h with rfl | h
    · exact List.mem_cons_self
    · exact List.mem_cons_of_mem u (fst_mem_of_mem_giveWay h)

/-- Underlines with their ends lie one behind the other: none begins before an earlier one ends. -/
def InLine (ps : List (Underline × Int)) : Prop := ps.Pairwise fun p q => p.2 ≤ q.1.start

theorem inLine_giveWay : ∀ {us : List Underline},
    (us.Pairwise fun u v => u.start ≤ v.start) → InLine (giveWay us)
  | [], _ => List.Pairwise.nil
  | [u], _ => List.pairwise_singleton _ _
  | u :: v :: rest, h => by
    rw [List.pairwise_cons] at h
    refine List.pairwise_cons.mpr ⟨fun p hp => ?_, inLine_giveWay h.2⟩
    have hv : v.start ≤ p.1.start := by
      rcases List.mem_cons.mp (fst_mem_of_mem_giveWay hp) with hp | hp
      · exact hp ▸ Int.le_refl _
      · exact (List.pairwise_cons.mp h.2).1 p.1 hp
    show min u.stop v.start ≤ p.1.start
    omega

/-- An underline ends where it should, or else where one begins that stands apart from it, which is
no earlier than in its last cell. -/
theorem exists_mem_giveWay : ∀ {us : List Underline},
    (us.Pairwise fun u v => u.start ≤ v.start) → Span.Apart Underline.toSpan us →
    ∀ {u : Underline}, u ∈ us → ∃ stop, (u, stop) ∈ giveWay us ∧
      (stop = u.stop ∨ ∃ v ∈ us, stop = v.start ∧ u.start < v.start ∧ u.stop ≤ v.start + 1)
  | [w], _, _, u, hu => by
    obtain rfl := List.mem_singleton.mp hu
    exact ⟨u.stop, List.mem_singleton.mpr rfl, Or.inl rfl⟩
  | w :: v :: rest, hsorted, hapart, u, hu => by
    rw [Span.Apart, List.pairwise_cons] at hapart
    rw [List.pairwise_cons] at hsorted
    rcases List.mem_cons.mp hu with rfl | hu
    · have hnext := Span.lt_and_le_of_not_collides (hapart.1 v List.mem_cons_self)
        (hsorted.1 v List.mem_cons_self)
      refine ⟨min u.stop v.start, List.mem_cons_self, ?_⟩
      by_cases h : u.stop ≤ v.start
      · exact Or.inl (Int.min_eq_left h)
      · exact Or.inr ⟨v, by simp, Int.min_eq_right (by omega), hnext⟩
    · obtain ⟨stop, hmem, hstop⟩ := exists_mem_giveWay hsorted.2 hapart.2 hu
      refine ⟨stop, List.mem_cons_of_mem _ hmem, hstop.imp_right ?_⟩
      rintro ⟨x, hx, h⟩
      exact ⟨x, List.mem_cons_of_mem w hx, h⟩

/-! ## Painting -/

/-- A gap that a code divides has a blank for the code to stand before, since it is not empty. -/
theorem hasSeat_lead (u : Underline) {gap : Int} {drawn : Bool} (h : drawn = true → 0 ≤ gap) :
    ∀ p ∈ lead u gap drawn, p.HasSeat := by
  unfold lead
  split
  · rename_i hlead
    have := h hlead.1
    exact List.forall_mem_singleton.mpr (show 0 < gap by omega)
  · simp [Row.gap, Piece.HasSeat]

theorem hasSeat_stroke (p : Pen) (width : Int) : ∀ q ∈ p.stroke width, q.HasSeat := by
  unfold Pen.stroke
  split <;> simp [Piece.HasSeat]

/-- Behind what is drawn already no underline begins before the column, so no gap is negative. -/
theorem hasSeat_paint : ∀ {ps : List (Underline × Int)} {column : Int} {drawn : Bool}, InLine ps →
    (drawn = true → ∀ p ∈ ps, column ≤ p.1.start) → ∀ q ∈ paint ps column drawn, q.HasSeat
  | [], _, _, _, _, q, hq => by cases hq
  | (u, stop) :: rest, column, drawn, hline, hcolumn, q, hq => by
    rw [InLine, List.pairwise_cons] at hline
    rw [paint] at hq
    split at hq
    · exact hasSeat_paint hline.2 (fun h p hp => hcolumn h p (List.mem_cons_of_mem _ hp)) q hq
    · simp only [List.mem_append, List.mem_cons] at hq
      rcases hq with (hq | hq) | rfl | hq
      · refine hasSeat_lead u (fun h => ?_) q hq
        have hbegin : column ≤ u.start := hcolumn h (u, stop) List.mem_cons_self
        omega
      · exact hasSeat_stroke u.toPen _ q hq
      · trivial
      · exact hasSeat_paint hline.2 (fun _ p hp => hline.1 p hp) q hq

/-- In front of an underline there are as many blanks as its gap is wide. -/
theorem cells_lead (u : Underline) {gap : Int} (h : 0 ≤ gap) (drawn : Bool) :
    Row.cells (lead u gap drawn) = List.replicate gap.toNat [' '] := by
  unfold lead
  split
  · rename_i hlead
    have hgap : gap.toNat = (gap - 1).toNat + 1 := by
      have := hlead.2
      omega
    rw [hgap, List.replicate_succ']
    simp
  · simp [Row.gap]

/-- An underline is drawn as its first glyph and its fill, as often as there are cells. -/
theorem cells_stroke (u : Underline) {width : Int} (h : 0 < width) :
    Row.cells (u.stroke width) = u.head :: List.replicate (width - 1).toNat u.fill := by
  rw [Pen.stroke, if_neg (by omega)]
  simp

theorem length_cells_stroke (u : Underline) {width : Int} (h : 0 < width) :
    (Row.cells (u.stroke width)).length = width.toNat := by
  rw [cells_stroke u h, List.length_cons, List.length_replicate]
  omega

theorem getElem?_cells_stroke (u : Underline) {width : Int} {k : Nat} (hk : k < width) :
    (Row.cells (u.stroke width))[k]? = some (u.glyphAt (u.start + k)) := by
  rw [cells_stroke u (by omega), Underline.glyphAt]
  cases k with
  | zero => simp
  | succ k =>
    rw [if_neg (by omega), List.getElem?_cons_succ, List.getElem?_replicate, if_pos (by omega)]

/-- **Each underline is drawn beneath its own cells**, up to where it gives way. -/
theorem cells_paint : ∀ {ps : List (Underline × Int)} {column : Int} (drawn : Bool),
    InLine ps → (∀ p ∈ ps, column ≤ p.1.start) →
    ∀ {u : Underline} {stop : Int}, (u, stop) ∈ ps → ∀ {c : Int}, u.start ≤ c → c < stop →
      (Row.cells (paint ps column drawn))[(c - column).toNat]? = some (u.glyphAt c)
  | (v, vstop) :: rest, column, drawn, hline, hcolumn, u, stop, hmem, c, hstart, hstop => by
    rw [InLine, List.pairwise_cons] at hline
    have hrest : ∀ p ∈ rest, column ≤ p.1.start :=
      fun p hp => hcolumn p (List.mem_cons_of_mem _ hp)
    have hgap : column ≤ v.start := hcolumn (v, vstop) List.mem_cons_self
    rw [paint]
    split
    · -- The first one is left without a cell, so it is not the one that is looked for.
      rename_i hempty
      rcases List.mem_cons.mp hmem with h | hmem
      · cases h
        omega
      · exact cells_paint drawn hline.2 hrest hmem hstart hstop
    · rename_i hshown
      rw [Row.cells_append, Row.cells_append, Row.cells_cons, Piece.cells_off, List.nil_append,
        cells_lead v (by omega)]
      have hwidth : 0 < vstop - v.start := by omega
      have hstroke := length_cells_stroke v hwidth
      rcases List.mem_cons.mp hmem with h | hmem
      · cases h
        have hk : (c - column).toNat = (v.start - column).toNat + (c - v.start).toNat := by omega
        rw [List.append_assoc, hk, List.getElem?_append_right (by simp), List.length_replicate,
          Nat.add_sub_cancel_left, List.getElem?_append_left (by omega),
          getElem?_cells_stroke v (by omega)]
        congr 2
        omega
      · have hbehind : vstop ≤ u.start := hline.1 (u, stop) hmem
        have hk : (c - column).toNat =
            (v.start - column).toNat + (vstop - v.start).toNat + (c - vstop).toNat := by omega
        rw [hk, List.getElem?_append_right (by simp [hstroke]), List.length_append,
          List.length_replicate, hstroke, Nat.add_sub_cancel_left]
        exact cells_paint true hline.2 (fun p hp => hline.1 p hp) hmem hstart hstop

end UnderlineRow

namespace Line

theorem hasSeat_underlineRow (l : Line) : ∀ p ∈ l.underlineRow, p.HasSeat :=
  UnderlineRow.hasSeat_paint (UnderlineRow.inLine_giveWay (inOrder_sorted (·.start) l.underlines))
    nofun

/-- **Without colour the underline row is its cells.** -/
theorem showUnderline_plain (l : Line) : l.showUnderline false = l.underlineRow.cells.flatten :=
  Row.emit_false l.hasSeat_underlineRow

/-- **What is drawn of an underline**: all its cells but possibly the last of several, which it
gives up only to an underline that begins there. -/
theorem drawn_of_sound {l : Line} (h : l.Sound) {u : Underline} (hu : u ∈ l.underlines) {c : Int}
    (hc : u.Contains c) : l.underlineRow.cells[c.toNat]? = some (u.glyphAt c) ∨
      c = u.stop - 1 ∧ c ≠ u.start ∧ ∃ v ∈ l.underlines, v.start = c := by
  have hsorted := inOrder_sorted (·.start) l.underlines
  have hapart : Span.Apart Underline.toSpan (inOrder (·.start) l.underlines) :=
    (inOrder_perm _ l.underlines).symm.pairwise h.apart fun hab hba =>
      hab (Span.collides_comm.mp hba)
  obtain ⟨stop, hmem, hstop⟩ :=
    UnderlineRow.exists_mem_giveWay hsorted hapart ((mem_inOrder _).mpr hu)
  have hcolumn : ∀ p ∈ UnderlineRow.giveWay (inOrder (·.start) l.underlines),
      0 ≤ p.1.start := fun p hp =>
    (h.underlines p.1 ((mem_inOrder _).mp (UnderlineRow.fst_mem_of_mem_giveWay hp))).1
  have hstart := hc.1
  have hend := hc.2
  by_cases hlt : c < stop
  · left
    have := UnderlineRow.cells_paint false (UnderlineRow.inLine_giveWay hsorted) hcolumn hmem
      hstart hlt
    rwa [Int.sub_zero] at this
  · right
    rcases hstop with rfl | ⟨v, hv, rfl, hlt', hle⟩
    · omega
    · exact ⟨by omega, by omega, v, (mem_inOrder _).mp hv, by omega⟩

/-- **No underline that was accepted is lost.** However a line was annotated: all its spans are
proper; its underlines stand apart, so that they start apart and no cell is covered three times; one
more decoration adds an underline iff it is a proper one that collides with none of them, and leaves
the underlines alone otherwise; and in the underline row, with its codes or without, each cell of an
underline has the glyph that the underline draws there, but for the last of several cells if another
underline starts in it. -/
theorem underlines_attemptAll (text : Text) (numbered : Bool) (number : Int)
    (as : List Annotation) :
    let l := (bare text numbered number).attemptAll as
    ((∀ t ∈ l.tints, t.Proper) ∧ ∀ u ∈ l.underlines, u.Proper) ∧
    (l.underlines.Pairwise (fun u v => ¬ u.Collides v.toSpan) ∧
      (l.underlines.map (·.start)).Nodup ∧
      ∀ c, (l.underlines.filter fun u => u.Contains c).length ≤ 2) ∧
    (∀ a, (∀ u, (l.attempt a).underlines = l.underlines ++ [u] ↔ a.Adds l u) ∧
      ((∀ u, ¬ a.Adds l u) → (l.attempt a).underlines = l.underlines)) ∧
    (l.showUnderline false = l.underlineRow.cells.flatten ∧
      l.showUnderline true = l.underlineRow.tokens.flatMap Token.text) ∧
    ∀ u ∈ l.underlines, ∀ c, u.Contains c →
      l.underlineRow.cells[c.toNat]? = some (u.glyphAt c) ∨
        c = u.stop - 1 ∧ c ≠ u.start ∧ ∃ v ∈ l.underlines, v.start = c := by
  intro l
  have hsound : l.Sound := (sound_bare text numbered number).attemptAll as
  refine ⟨⟨hsound.tints, hsound.underlines⟩,
    ⟨hsound.apart, Span.starts_nodup_of_apart hsound.apart,
      Span.count_contains_le_two hsound.apart⟩,
    fun a => ⟨fun u => underlines_attempt_iff, underlines_attempt_of_not_adds⟩,
    ⟨l.showUnderline_plain, Row.emit_true _⟩, ?_⟩
  intro u hu c hc
  exact drawn_of_sound hsound hu hc

-- The second underline begins in the last cell of the first, the third would begin in the second.
example :
    let l := (bare ['a', 'b', 'c', 'd']).attemptAll [
      .underline (.within (some 0) (some 3)) { fill := ['~'], tip := some ['^'] } [],
      .underline (.within (some 2) none) {} [],
      .underline (.within (some 2) (some 3)) {} []]
    l.underlineRow.cells = [['^'], ['~'], ['-'], ['-']] := by
  decide

end Line

/-! ## Cells of one character -/

/-- An underline has a cell at a position if it covers that position and has not given way to
another underline there. -/
def Line.DrawnAt (l : Line) (u : Underline) (c : Int) : Prop :=
  ∃ stop, (u, stop) ∈ UnderlineRow.giveWay (inOrder (·.start) l.underlines) ∧
    u.start ≤ c ∧ c < stop

/-- Underlines that begin no earlier than the text and are drawn with glyphs of one character. -/
def Line.DrawnSingly (l : Line) : Prop :=
  ∀ u ∈ l.underlines, 0 ≤ u.start ∧ u.head.length = 1 ∧ u.fill.length = 1

namespace UnderlineRow

theorem eq_blank_of_mem_cells_lead {u : Underline} {gap : Int} {drawn : Bool} {cell : Text}
    (h : cell ∈ Row.cells (lead u gap drawn)) : cell = [' '] := by
  unfold lead at h
  split at h
  · simp only [Row.cells_cons, Piece.cells_leadIn, Row.cells_nil, List.append_nil,
      List.mem_append, List.mem_singleton] at h
    exact h.elim List.eq_of_mem_replicate id
  · simp only [Row.gap, Row.cells_cons, Piece.cells_run, Piece.cells_on, Row.cells_nil,
      List.append_nil] at h
    exact List.eq_of_mem_replicate h

/-- A row of underlines is made of blanks and of their glyphs. -/
theorem mem_cells_paint {cell : Text} : ∀ {ps : List (Underline × Int)} {column : Int}
    {drawn : Bool}, cell ∈ Row.cells (paint ps column drawn) →
    cell = [' '] ∨ ∃ p ∈ ps, cell = p.1.head ∨ cell = p.1.fill
  | [], _, _, h => by cases h
  | (u, stop) :: rest, column, drawn, h => by
    have hrest : (∃ p ∈ rest, cell = p.1.head ∨ cell = p.1.fill) →
        ∃ p ∈ (u, stop) :: rest, cell = p.1.head ∨ cell = p.1.fill :=
      fun ⟨p, hp, hcell⟩ => ⟨p, List.mem_cons_of_mem _ hp, hcell⟩
    rw [paint] at h
    split at h
    · exact (mem_cells_paint h).imp_right hrest
    · rename_i hwidth
      rw [Row.cells_append, Row.cells_append, Row.cells_cons, Piece.cells_off, List.nil_append,
        cells_stroke u (by omega)] at h
      rcases List.mem_append.mp h with h | h
      · rcases List.mem_append.mp h with h | h
        · exact Or.inl (eq_blank_of_mem_cells_lead h)
        · refine Or.inr ⟨(u, stop), List.mem_cons_self, ?_⟩
          exact (List.mem_cons.mp h).imp_right List.eq_of_mem_replicate
      · exact (mem_cells_paint h).imp_right hrest

end UnderlineRow

theorem cells_eq_map_flatten {cells : List Text} (h : ∀ cell ∈ cells, cell.length = 1) :
    cells = cells.flatten.map fun c => [c] := by
  induction cells with
  | nil => rfl
  | cons cell cells ih =>
    obtain ⟨c, rfl⟩ := List.length_eq_one_iff.mp (h cell List.mem_cons_self)
    have hrest := ih fun cell hcell => h cell (List.mem_cons_of_mem _ hcell)
    rw [List.flatten_cons, List.map_append, ← hrest]
    rfl

namespace Line

variable {l : Line}

/-- Where glyphs have one character, the characters of the underline row are its cells. -/
theorem cells_underlineRow (h : l.DrawnSingly) :
    l.underlineRow.cells = (l.showUnderline false).map fun c => [c] := by
  rw [showUnderline_plain]
  refine cells_eq_map_flatten fun cell hcell => ?_
  rcases UnderlineRow.mem_cells_paint hcell with rfl | ⟨p, hp, hglyph⟩
  · rfl
  · have hsingle := h p.1 ((mem_inOrder _).mp (UnderlineRow.fst_mem_of_mem_giveWay hp))
    rcases hglyph with rfl | rfl
    · exact hsingle.2.1
    · exact hsingle.2.2

/-- **An underline is drawn in the column that it covers.** -/
theorem getElem?_showUnderline (h : l.DrawnSingly) {u : Underline} {c : Int} (hu : l.DrawnAt u c) :
    0 ≤ c ∧ ((l.showUnderline false)[c.toNat]?).map (fun c => [c]) = some (u.glyphAt c) := by
  obtain ⟨stop, hmem, hstart, hstop⟩ := hu
  have hbegin : ∀ p ∈ UnderlineRow.giveWay (inOrder (·.start) l.underlines), 0 ≤ p.1.start :=
    fun p hp => (h p.1 ((mem_inOrder _).mp (UnderlineRow.fst_mem_of_mem_giveWay hp))).1
  have hline := UnderlineRow.inLine_giveWay (inOrder_sorted (·.start) l.underlines)
  have hcell := UnderlineRow.cells_paint false hline hbegin hmem hstart hstop
  have hu0 : 0 ≤ u.start := hbegin (u, stop) hmem
  refine ⟨by omega, ?_⟩
  rw [← List.getElem?_map, ← cells_underlineRow h]
  rwa [Int.sub_zero] at hcell

end Line

end Marginalia
