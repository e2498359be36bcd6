import Marginalia.Proofs.Drawing

/-!
# Who owns a cell

The underline row is painted from left to right, each underline up to where the next one begins. The
picture that comes of it can be told cell by cell: a cell belongs to the last underline that begins
there or before, and is drawn unless that has ended (`Underline.drawing`). This holds however the
underlines lie, also where they collide, as they may after two lines were joined.

The row from some column on is told by a drawing as follows (`Drawing.Continues`). The column is the
first one of the row or the one behind a drawn cell; from there on the drawing is that of the
underlines that are still to be painted; and no underline is drawn before it begins. So the next
underline to be painted has the cells from its start up to where it gives way and no others
(`Drawing.Continues.holds`), with a gap in front of it in which nothing is drawn.

Results:
* `UnderlineRow.emit_paint`: what is painted is the drawing.
* `Line.showUnderline_eq_drawing`: the underline row of a line, cell by cell.
-/

namespace Marginalia

namespace Underline

/-- The owner of a cell: of underlines in order of their starts, the last that begins there or
before. -/
def owner? (us : List Underline) (c : Nat) : Option Underline :=
  (us.filter fun u => u.start ≤ (c : Int)).getLast?

/-- What underlines in order of their starts draw: in each cell its owner, unless that has ended. -/
def drawing (us : List Underline) : Drawing :=
  fun c => (owner? us c).filter fun u => (c : Int) < u.stop

variable {u v : Underline} {rest us : List Underline} {c : Nat}

/-- What is drawn in a cell has begun and has not ended. -/
theorem mem_of_drawn (h : drawing us c = some u) :
    u ∈ us ∧ u.start ≤ (c : Int) ∧ (c : Int) < u.stop := by
  obtain ⟨howner, hstop⟩ := Option.filter_eq_some_iff.mp h
  obtain ⟨hmem, hstart⟩ := List.mem_filter.mp (List.mem_of_getLast? howner)
  exact ⟨hmem, by simpa using hstart, by simpa using hstop⟩

theorem drawing_of_lt (h : ∀ v ∈ us, (c : Int) < v.start) : drawing us c = none := by
  refine Option.eq_none_iff_forall_ne_some.mpr fun u hu => ?_
  obtain ⟨hmem, hstart, -⟩ := mem_of_drawn hu
  have := h u hmem
  omega

/-- In front of the others the first underline owns what it has begun. -/
theorem drawing_cons_of_lt (h : ∀ v ∈ rest, (c : Int) < v.start) :
    drawing (u :: rest) c = if u.start ≤ c ∧ (c : Int) < u.stop then some u else none := by
  have hrest : rest.filter (fun v => v.start ≤ (c : Int)) = [] := by
    refine List.filter_eq_nil_iff.mpr fun v hv => ?_
    have := h v hv
    rw [decide_eq_true_iff]
    omega
  rw [drawing, owner?, List.filter_cons, hrest]
  by_cases hstart : u.start ≤ (c : Int) <;> by_cases hstop : (c : Int) < u.stop <;>
    simp [hstart, hstop]
  omega

/-- Where another one has begun, the first underline is no longer the owner. -/
theorem drawing_cons_of_le (hv : v ∈ rest) (h : v.start ≤ (c : Int)) :
    drawing (u :: rest) c = drawing rest c := by
  have hmem : v ∈ rest.filter fun v => v.start ≤ (c : Int) :=
    List.mem_filter.mpr ⟨hv, decide_eq_true h⟩
  have howner : owner? (u :: rest) c = owner? rest c := by
    rw [owner?, owner?, List.filter_cons]
    split
    · rw [List.getLast?_cons_of_ne_nil (List.ne_nil_of_mem hmem)]
    · rfl
  rw [drawing, drawing, howner]

end Underline

namespace UnderlineRow

variable {u : Underline} {rest : List Underline}

/-- Where an underline gives way to those behind it, if they are in order of their starts. -/
def reach (u : Underline) (rest : List Underline) : Int :=
  rest.head?.elim u.stop fun v => min u.stop v.start

theorem giveWay_cons (u : Underline) (rest : List Underline) :
    giveWay (u :: rest) = (u, reach u rest) :: giveWay rest := by
  cases rest <;> rfl

/-- An underline reaches up to where it ends or one of the others begins. -/
theorem lt_reach_iff (hsorted : rest.Pairwise fun u v => u.start ≤ v.start) {c : Int} :
    c < reach u rest ↔ c < u.stop ∧ ∀ v ∈ rest, c < v.start := by
  cases rest with
  | nil => simp [reach]
  | cons v rest =>
    have hfirst := (List.pairwise_cons.mp hsorted).1
    show c < min u.stop v.start ↔ _
    rw [List.forall_mem_cons]
    constructor
    · exact fun h => ⟨by omega, by omega, fun w hw => by have := hfirst w hw; omega⟩
    · exact fun h => by omega

theorem reach_le_start (hsorted : rest.Pairwise fun u v => u.start ≤ v.start) {v : Underline}
    (hv : v ∈ rest) : reach u rest ≤ v.start := by
  by_contra h
  have := ((lt_reach_iff hsorted).mp (Int.not_le.mp h)).2 v hv
  omega

/-- Behind its reach an underline owns nothing that is drawn. -/
theorem drawing_of_reach_le (hsorted : rest.Pairwise fun u v => u.start ≤ v.start) {c : Nat}
    (h : reach u rest ≤ (c : Int)) :
    Underline.drawing (u :: rest) c = Underline.drawing rest c := by
  by_cases hbegun : ∃ v ∈ rest, v.start ≤ (c : Int)
  · obtain ⟨v, hv, hc⟩ := hbegun
    exact Underline.drawing_cons_of_le hv hc
  · have hlt : ∀ v ∈ rest, (c : Int) < v.start := by
      intro v hv
      by_contra hle
      exact hbegun ⟨v, hv, Int.not_lt.mp hle⟩
    have hended : u.stop ≤ (c : Int) := by
      by_contra hlive
      have := (lt_reach_iff (u := u) hsorted).mpr ⟨Int.not_le.mp hlive, hlt⟩
      omega
    rw [Underline.drawing_cons_of_lt hlt, Underline.drawing_of_lt hlt, if_neg (by omega)]

/-- Up to its reach an underline is drawn wherever it has begun, and nothing else is. -/
theorem drawing_of_lt_reach (hsorted : rest.Pairwise fun u v => u.start ≤ v.start) {c : Nat}
    (h : (c : Int) < reach u rest) :
    Underline.drawing (u :: rest) c = if u.start ≤ (c : Int) then some u else none := by
  obtain ⟨hstop, hrest⟩ := (lt_reach_iff hsorted).mp h
  rw [Underline.drawing_cons_of_lt hrest]
  simp only [hstop, and_true]

/-- An underline without reach draws nothing. -/
theorem drawing_of_reach_le_start (hsorted : rest.Pairwise fun u v => u.start ≤ v.start)
    (h : reach u rest ≤ u.start) :
    Underline.drawing (u :: rest) = Underline.drawing rest := by
  funext c
  by_cases hc : reach u rest ≤ (c : Int)
  · exact drawing_of_reach_le hsorted hc
  · rw [drawing_of_lt_reach hsorted (Int.not_le.mp hc), if_neg (by omega),
      Underline.drawing_of_lt fun v hv => ?_]
    have := reach_le_start (u := u) hsorted hv
    omega

end UnderlineRow

namespace Drawing

variable {d : Drawing} {u : Underline} {us rest : List Underline} {column n : Nat}

/-- A drawing that ends before some cell has a last cell, or none. -/
theorem exists_endsAt : ∀ (bound : Nat), (∀ c, (d c).isSome → c < bound) → ∃ n, d.EndsAt n
  | 0, h => ⟨0, h, fun c hc => by omega⟩
  | bound + 1, h => by
    by_cases hlast : (d bound).isSome
    · refine ⟨bound + 1, h, fun c hc => ?_⟩
      rw [show c = bound by omega]
      exact hlast
    · refine exists_endsAt bound fun c hc => ?_
      have hle := h c hc
      refine Nat.lt_of_le_of_ne (by omega) fun hbound => ?_
      rw [hbound] at hc
      exact hlast hc

/-- **What underlines draw comes to an end.** -/
theorem exists_endsAt_drawing (us : List Underline) : ∃ n, (Underline.drawing us).EndsAt n := by
  let stops : List Nat := 0 :: us.map (·.stop.toNat)
  refine exists_endsAt (stops.max (List.cons_ne_nil _ _)) fun c hc => ?_
  obtain ⟨u, hu⟩ := Option.isSome_iff_exists.mp hc
  obtain ⟨hmem, -, hstop⟩ := Underline.mem_of_drawn hu
  have hmem' : u.stop.toNat ∈ stops := List.mem_cons_of_mem 0 (List.mem_map_of_mem hmem)
  have hlast := List.le_max_of_mem hmem'
  omega

/-- A drawing goes on from a column with underlines in order of their starts. -/
structure Continues (d : Drawing) (us : List Underline) (column : Nat) : Prop where
  /-- The column is the first one, or the cell before it is drawn. -/
  here : ∀ c, column = c + 1 → (d c).isSome
  /-- From the column on these underlines are drawn. -/
  ahead : ∀ c, column ≤ c → d c = Underline.drawing us c
  /-- No underline is drawn before it begins. -/
  begun : ∀ c u, d c = some u → u.start ≤ (c : Int)
  sorted : us.Pairwise fun u v => u.start ≤ v.start
  /-- None of them begins before the column. -/
  behind : ∀ u ∈ us, (column : Int) ≤ u.start

/-- A drawing goes on from its first cell. -/
theorem continues_drawing (hsorted : us.Pairwise fun u v => u.start ≤ v.start)
    (h : ∀ u ∈ us, 0 ≤ u.start) : Continues (Underline.drawing us) us 0 where
  here c hc := by omega
  ahead c _ := rfl
  begun c u hu := (Underline.mem_of_drawn hu).2.1
  sorted := hsorted
  behind := by simpa using h

namespace Continues

theorem column_le (h : Continues d us column) (hend : d.EndsAt n) : column ≤ n := by
  rcases column with - | c
  · exact Nat.zero_le n
  · exact hend.1 c (h.here c rfl)

/-- With no underlines left the drawing has ended. -/
theorem eq_of_nil (h : Continues d [] column) (hend : d.EndsAt n) : column = n := by
  refine Nat.le_antisymm (h.column_le hend) (Nat.le_of_not_lt fun hlt => ?_)
  have hdrawn := hend.2 (n - 1) (by omega)
  rw [h.ahead (n - 1) (by omega)] at hdrawn
  cases hdrawn

/-- An underline without reach is passed over. -/
theorem skip (h : Continues d (u :: rest) column)
    (hreach : UnderlineRow.reach u rest ≤ u.start) : Continues d rest column where
  here := h.here
  ahead c hc := by
    rw [h.ahead c hc,
      UnderlineRow.drawing_of_reach_le_start (List.pairwise_cons.mp h.sorted).2 hreach]
  begun := h.begun
  sorted := (List.pairwise_cons.mp h.sorted).2
  behind v hv := h.behind v (List.mem_cons_of_mem u hv)

section Next

variable (h : Continues d (u :: rest) column) {s e : Nat} (hs : u.start = s)
  (he : UnderlineRow.reach u rest = e) (hse : s < e)

include h hs he

/-- In front of the next underline there is nothing. -/
theorem gap {c : Nat} (hc : column ≤ c) (hcs : c < s) (hse : s < e) : d c = none := by
  rw [h.ahead c hc,
    UnderlineRow.drawing_of_lt_reach (List.pairwise_cons.mp h.sorted).2 (by omega),
    if_neg (by omega)]

include hse

/-- **The next underline** has the cells from its start up to its reach, and no others. -/
theorem holds : d.Holds u s e := by
  have hsorted := (List.pairwise_cons.mp h.sorted).2
  have hcolumn := h.behind u List.mem_cons_self
  intro c
  constructor
  · intro hdrawn
    have hstart := h.begun c u hdrawn
    refine ⟨by omega, ?_⟩
    by_contra hc
    -- Behind its reach only underlines are drawn that begin later than this one.
    rw [h.ahead c (by omega), UnderlineRow.drawing_of_reach_le hsorted (by omega)] at hdrawn
    have := UnderlineRow.reach_le_start (u := u) hsorted (Underline.mem_of_drawn hdrawn).1
    omega
  · intro hc
    rw [h.ahead c (by omega), UnderlineRow.drawing_of_lt_reach hsorted (by omega),
      if_pos (by omega)]

/-- Behind the next underline the drawing goes on with the others. -/
theorem next : Continues d rest e where
  here c hc := by rw [(h.holds hs he hse c).mpr ⟨by omega, by omega⟩]; rfl
  ahead c hc := by
    have hcolumn := h.behind u List.mem_cons_self
    rw [h.ahead c (by omega),
      UnderlineRow.drawing_of_reach_le (List.pairwise_cons.mp h.sorted).2 (by omega)]
  begun := h.begun
  sorted := (List.pairwise_cons.mp h.sorted).2
  behind v hv := he ▸ UnderlineRow.reach_le_start (List.pairwise_cons.mp h.sorted).2 hv

end Next

end Continues

end Drawing

namespace UnderlineRow

open Drawing

variable {d : Drawing} {n : Nat}

/-- **What is painted from a column on is the drawing from there on.** -/
theorem emit_paint (hend : d.EndsAt n) (colored : Bool) : ∀ {us : List Underline} {column : Nat},
    Continues d us column →
    (paint (giveWay us) column (decide (0 < column))).emit colored = d.segment colored n column n
  | [], column, h => by
    rw [h.eq_of_nil hend, Drawing.segment, Nat.sub_self]
    rfl
  | u :: rest, column, h => by
    rw [giveWay_cons, paint]
    split
    · rename_i hreach
      exact emit_paint hend colored (h.skip hreach)
    · rename_i hreach
      have hcolumn := h.behind u List.mem_cons_self
      obtain ⟨s, hs⟩ : ∃ s : Nat, u.start = s := ⟨u.start.toNat, by omega⟩
      obtain ⟨e, he⟩ : ∃ e : Nat, reach u rest = e := ⟨(reach u rest).toNat, by omega⟩
      have hse : s < e := by omega
      have hcs : column ≤ s := by omega
      have hholds := h.holds hs he hse
      have hnext := h.next hs he hse
      have hen : e ≤ n := hnext.column_le hend
      have hrest := emit_paint hend colored hnext
      rw [decide_eq_true (show 0 < e by omega)] at hrest
      have hlead := emit_lead (n := n) (fun c hc hlt => h.gap hs he hc hlt hse) h.here hholds hse
        hcs colored
      have hstroke := emit_stroke hholds hse hen hs colored
      rw [Row.emit_append, Row.emit_append, Row.emit_cons, he, hs, hrest, hlead, Piece.emit,
        ← segment_append d (Nat.le_trans hcs (Nat.le_of_lt hse)) hen,
        ← segment_append d hcs (Nat.le_of_lt hse), ← hstroke]
      simp only [List.append_assoc]

end UnderlineRow

namespace Line

/-- What the underlines of a line draw, if they are put in order of their starts. -/
def drawing (l : Line) : Drawing :=
  Underline.drawing (l.underlines.mergeSort fun u v => u.start ≤ v.start)

theorem drawing_eq_inOrder (l : Line) :
    l.drawing = Underline.drawing (inOrder (·.start) l.underlines) := by
  rw [inOrder_eq_mergeSort]
  rfl

/-- **The underline row of a line, cell by cell.** If no underline begins before the text, the row
has the cells up to the last one that is drawn. Without codes it is their glyphs, one after the
other; with codes, each cell has with it the codes of the underlines that begin and end there. -/
theorem showUnderline_eq_drawing {l : Line} (h : ∀ u ∈ l.underlines, 0 ≤ u.start) :
    ∃ n, l.drawing.EndsAt n ∧
      l.showUnderline false = (List.range n).flatMap l.drawing.glyph ∧
      l.showUnderline true = (List.range n).flatMap (l.drawing.coloredCell n) := by
  obtain ⟨n, hend⟩ := Drawing.exists_endsAt_drawing (inOrder (·.start) l.underlines)
  have hcontinues := Drawing.continues_drawing (inOrder_sorted (·.start) l.underlines)
    fun u hu => h u ((mem_inOrder _).mp hu)
  rw [drawing_eq_inOrder]
  refine ⟨n, hend, ?_⟩
  rw [List.range_eq_range']
  constructor
  · exact UnderlineRow.emit_paint hend false hcontinues
  · exact UnderlineRow.emit_paint hend true hcontinues

/-- The underline of the first line reaches into the second, where it loses the cell of the one that
begins first and, though that is short, all those behind it. -/
theorem showUnderline_eq_drawing_reaching :
    let a : Line := { text := ['a', 'b'], underlines := [
      { start := 0, stop := 9, fill := ['='], on := ['1'], off := ['.'] }] }
    let b : Line := { text := ['c', 'd', 'e'], underlines := [
      { start := 2, stop := 4, fill := ['-', '-'], tip := some ['<'], on := ['3'], off := ['.'] },
      { start := 0, stop := 1, fill := ['~'], on := ['2'], off := ['.'] }] }
    (∀ u ∈ (a ++ b).underlines, 0 ≤ u.start) ∧
      (∃ n, (a ++ b).drawing.EndsAt n ∧
        (a ++ b).showUnderline false = (List.range n).flatMap (a ++ b).drawing.glyph ∧
        (a ++ b).showUnderline true = (List.range n).flatMap ((a ++ b).drawing.coloredCell n)) ∧
      (List.range 6).map (a ++ b).drawing.glyph =
        [['='], ['='], ['~'], [' '], ['<'], ['-', '-']] ∧
      (a ++ b).showUnderline true =
        ['1', '=', '=', '.', '2', '~', '.', '3', ' ', '<', '-', '-', '.'] := by
  intro a b
  have h : ∀ u ∈ (a ++ b).underlines, 0 ≤ u.start := by decide
  refine ⟨h, showUnderline_eq_drawing h, ?_, by decide⟩
  rw [drawing_eq_inOrder]
  decide

end Line

end Marginalia
