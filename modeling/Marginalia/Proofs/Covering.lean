import Marginalia.Proofs.Joining.Beneath
import Mathlib.Data.List.Pairwise

/-!
# Which of the covered cells are drawn

An underline gives way to the next one where that begins. On a line that was annotated step by step
this costs it no more than its last cell, and the one that begins there takes the cell over, unless
it is empty: an empty underline still cuts the one before it, but draws nothing. So a cell is drawn
iff an underline covers it and no empty one begins there (`Line.Sound.drawn_iff`).

Results:
* `Underline.start_le_of_owner`: the owner of a cell is the last underline to begin by then.
* `Line.glyph_eq`: the glyphs of a drawing are the characters of the row.
* `Line.shows_iff_attemptAll`: which cells of a row are blank, and which an underline more leaves
  blank.
-/

namespace Marginalia

namespace Underline

variable {us : List Underline} {u v : Underline} {c : Nat}

/-- Nothing that has begun by some cell begins later than the owner of the cell. -/
theorem start_le_of_owner (hsorted : us.Pairwise fun u v => u.start ≤ v.start)
    (howner : owner? us c = some u) (hv : v ∈ us) (hc : v.start ≤ (c : Int)) :
    v.start ≤ u.start := by
  obtain ⟨before, hbegun⟩ := List.getLast?_eq_some_iff.mp howner
  have hlast : (before ++ [u]).Pairwise fun u v => u.start ≤ v.start := hbegun ▸ hsorted.filter _
  have hmem : v ∈ before ++ [u] := hbegun ▸ List.mem_filter.mpr ⟨hv, decide_eq_true hc⟩
  rcases List.mem_append.mp hmem with hv | hv
  · exact (List.pairwise_append.mp hlast).2.2 v hv u (List.mem_singleton.mpr rfl)
  · exact Int.le_of_eq (congrArg (·.start) (List.mem_singleton.mp hv))

theorem exists_owner (hv : v ∈ us) (hc : v.start ≤ (c : Int)) : ∃ u, owner? us c = some u := by
  refine Option.ne_none_iff_exists'.mp fun hnone => ?_
  rw [owner?, List.getLast?_eq_none_iff, List.filter_eq_nil_iff] at hnone
  exact hnone v hv (decide_eq_true hc)

/-- The underline is drawn with glyphs of one character, and none of them is a blank. -/
def Visible (u : Underline) : Prop :=
  (u.head.length = 1 ∧ u.fill.length = 1) ∧ u.head ≠ [' '] ∧ u.fill ≠ [' ']

instance (u : Underline) : Decidable u.Visible := inferInstanceAs (Decidable (_ ∧ _))

theorem Visible.glyphAt_ne (h : u.Visible) (c : Int) : u.glyphAt c ≠ [' '] := by
  rw [glyphAt]
  split
  · exact h.2.1
  · exact h.2.2

end Underline

namespace Line

variable {l : Line} {c : Nat}

/-- The underline row has something else than a blank in a column. -/
def Shows (l : Line) (c : Nat) : Prop := (l.showUnderline false).getD c ' ' ≠ ' '

instance (l : Line) (c : Nat) : Decidable (l.Shows c) := inferInstanceAs (Decidable (_ ≠ _))

/-- An underline covers a cell. -/
def Covered (l : Line) (c : Int) : Prop := ∃ u ∈ l.underlines, u.Contains c

/-- An empty underline begins in front of a cell. -/
def EmptyAt (l : Line) (c : Int) : Prop := ∃ u ∈ l.underlines, u.start = c ∧ u.stop = c

namespace Sound

variable (h : l.Sound)

include h

theorem not_collides {u v : Underline} (hu : u ∈ l.underlines) (hv : v ∈ l.underlines)
    (hne : u ≠ v) : ¬ u.Collides v.toSpan := by
  have : Std.Symm fun u v : Underline => ¬ u.Collides v.toSpan :=
    ⟨fun _ _ hfree hhit => hfree (Span.collides_comm.mp hhit)⟩
  exact h.apart.forall hu hv hne

/-- Two underlines that begin together are the same. -/
theorem eq_of_start_eq {u v : Underline} (hu : u ∈ l.underlines) (hv : v ∈ l.underlines)
    (hstart : u.start = v.start) : u = v := by
  by_contra hne
  exact Span.start_ne_of_not_collides (h.not_collides hu hv hne) hstart

/-- An underline takes at most the first cell of one that begins later. -/
theorem stop_le_of_start_lt {u v : Underline} (hu : u ∈ l.underlines) (hv : v ∈ l.underlines)
    (hstart : u.start < v.start) : u.stop ≤ v.start + 1 := by
  have hne : u ≠ v := fun huv => Int.ne_of_lt hstart (congrArg (·.start) huv)
  exact (Span.lt_and_le_of_not_collides (h.not_collides hu hv hne) (Int.le_of_lt hstart)).2

/-- **A covered cell is drawn** iff no empty underline begins there. -/
theorem drawn_iff (c : Nat) : (l.drawing c).isSome ↔ l.Covered c ∧ ¬ l.EmptyAt c := by
  have hsorted := inOrder_sorted (·.start) l.underlines
  rw [drawing_eq_inOrder, Underline.drawing]
  constructor
  · intro hdrawn
    obtain ⟨u, hu⟩ := Option.isSome_iff_exists.mp hdrawn
    obtain ⟨hmem, hstart, hstop⟩ := Underline.mem_of_drawn hu
    have hu' := (mem_inOrder _).mp hmem
    refine ⟨⟨u, hu', hstart, hstop⟩, ?_⟩
    -- An empty underline in front of the cell would be its owner.
    rintro ⟨z, hz, hzstart, hzstop⟩
    have howner := (Option.filter_eq_some_iff.mp hu).1
    have hle := Underline.start_le_of_owner hsorted howner ((mem_inOrder _).mpr hz)
      (Int.le_of_eq hzstart)
    have heq := h.eq_of_start_eq hz hu' (by omega)
    rw [heq] at hzstop
    omega
  · rintro ⟨⟨u, hu, hstart, hstop⟩, hempty⟩
    obtain ⟨o, howner⟩ := Underline.exists_owner ((mem_inOrder (·.start)).mpr hu) hstart
    have hmem := List.mem_filter.mp (List.mem_of_getLast? howner)
    have ho := (mem_inOrder _).mp hmem.1
    have hbegun : o.start ≤ (c : Int) := of_decide_eq_true hmem.2
    have hlast : (c : Int) < o.stop := by
      rcases Int.lt_or_eq_of_le (Underline.start_le_of_owner hsorted howner
        ((mem_inOrder _).mpr hu) hstart) with hlt | heq
      · -- The owner begins in the last cell of the other one, which is this cell.
        have hcut := h.stop_le_of_start_lt hu ho hlt
        have hproper := (h.underlines o ho).2
        have hne : o.stop ≠ c := fun hstop' => hempty ⟨o, ho, by omega, hstop'⟩
        omega
      · rw [← h.eq_of_start_eq hu ho heq]
        exact hstop
    rw [howner, Option.filter_some, if_pos (decide_eq_true hlast)]
    rfl

end Sound

/-- **The glyphs of a drawing are the characters of the row**, if each has one character. -/
theorem glyph_eq (h : l.DrawnSingly) (c : Nat) :
    l.drawing.glyph c = [(l.showUnderline false).getD c ' '] := by
  obtain ⟨n, hend, hplain, -⟩ := showUnderline_eq_drawing fun u hu => (h u hu).1
  choose glyph hglyph using fun c => List.length_eq_one_iff.mp (h.single c)
  have hrow : l.showUnderline false = (List.range n).map glyph := by
    rw [hplain, List.map_eq_flatMap]
    exact List.flatMap_congr fun c _ => hglyph c
  rw [hrow, List.getD_eq_getElem?_getD, List.getElem?_map]
  by_cases hc : c < n
  · rw [List.getElem?_range hc]
    exact hglyph c
  · have hblank : l.drawing c = none :=
      Option.not_isSome_iff_eq_none.mp fun hdrawn => hc (hend.1 c hdrawn)
    rw [List.getElem?_eq_none (by rw [List.length_range]; omega)]
    exact Drawing.glyph_of_blank hblank

/-- On a line with visible underlines the cells that are not blank are those that are drawn. -/
theorem shows_iff_drawn (h : l.Sound) (hvisible : ∀ u ∈ l.underlines, u.Visible) (c : Nat) :
    l.Shows c ↔ (l.drawing c).isSome := by
  have hsingly : l.DrawnSingly := fun u hu => ⟨(h.underlines u hu).1, (hvisible u hu).1⟩
  have hglyph := glyph_eq hsingly c
  have hshows : l.Shows c ↔ l.drawing.glyph c ≠ [' '] := by
    rw [hglyph, Shows, Ne, Ne, List.singleton_inj]
  rw [hshows]
  cases hu : l.drawing c with
  | none => simp [Drawing.glyph, hu]
  | some u =>
    have hmem : u ∈ l.underlines := by
      rw [drawing_eq_inOrder] at hu
      exact (mem_inOrder _).mp (Underline.mem_of_drawn hu).1
    simpa [Drawing.glyph, hu] using (hvisible u hmem).glyphAt_ne c

theorem Sound.shows_iff (h : l.Sound) (hvisible : ∀ u ∈ l.underlines, u.Visible) (c : Nat) :
    l.Shows c ↔ l.Covered c ∧ ¬ l.EmptyAt c :=
  (shows_iff_drawn h hvisible c).trans (h.drawn_iff c)

section Adding

variable {a : Annotation} {u : Underline} (hadds : a.Adds l u)

include hadds

theorem covered_attempt_iff {c : Int} : (l.attempt a).Covered c ↔ l.Covered c ∨ u.Contains c := by
  rw [Covered, attempt_of_adds hadds]
  simp only [List.mem_append, List.mem_singleton, or_and_right, exists_or, exists_eq_left]
  rfl

theorem emptyAt_attempt_iff {c : Int} :
    (l.attempt a).EmptyAt c ↔ l.EmptyAt c ∨ u.start = c ∧ u.stop = c := by
  rw [EmptyAt, attempt_of_adds hadds]
  simp only [List.mem_append, List.mem_singleton, or_and_right, exists_or, exists_eq_left]
  rfl

theorem visible_attempt (hvisible : ∀ v ∈ l.underlines, v.Visible) (hu : u.Visible) :
    ∀ v ∈ (l.attempt a).underlines, v.Visible := by
  rw [attempt_of_adds hadds]
  exact List.forall_mem_append.mpr ⟨hvisible, fun v hv => List.mem_singleton.mp hv ▸ hu⟩

end Adding

/-- **Which covered cells are drawn.** However a line was annotated, if its underlines are visible:
the underline row has something else than a blank exactly in the columns that an underline covers
and in which no empty one begins; and if one more visible underline is taken, a column that was not
blank turns blank iff that underline is empty and begins there. -/
theorem shows_iff_attemptAll (text : Text) (numbered : Bool) (number : Int)
    (as : List Annotation)
    (hvisible : ∀ u ∈ ((bare text numbered number).attemptAll as).underlines, u.Visible) :
    let l := (bare text numbered number).attemptAll as
    (∀ c : Nat, l.Shows c ↔ l.Covered c ∧ ¬ l.EmptyAt c) ∧
      ∀ a u, a.Adds l u → u.Visible →
        ∀ c : Nat, l.Shows c →
          ((l.attempt a).Shows c ↔ ¬ (u.start = (c : Int) ∧ u.stop = (c : Int))) := by
  intro l
  have hsound : l.Sound := (sound_bare text numbered number).attemptAll as
  refine ⟨hsound.shows_iff hvisible, fun a u hadds hu c hc => ?_⟩
  obtain ⟨hcovered, hempty⟩ := (hsound.shows_iff hvisible c).mp hc
  rw [(hsound.attempt a).shows_iff (visible_attempt hadds hvisible hu) c,
    covered_attempt_iff hadds, emptyAt_attempt_iff hadds]
  constructor
  · exact fun h hends => h.2 (Or.inr hends)
  · exact fun h => ⟨Or.inl hcovered, fun hends => hends.elim hempty h⟩

/-- An underline that is empty and lies behind the last cell of another one changes nothing, but one
in front of that cell blanks it. -/
theorem shows_iff_attemptAll_two_empty :
    let as : List Annotation := [.underline (.within (some 0) (some 3)) {} [],
      .underline (.within (some 3) (some 3)) { tip := some ['^'] } []]
    let l := (bare ['a', 'b', 'c']).attemptAll as
    let a : Annotation := .underline (.within (some 2) (some 2)) {} []
    (∀ u ∈ l.underlines, u.Visible) ∧ l.Shows 2 ∧ (l.attempt a).Shows 1 ∧
      ¬ (l.attempt a).Shows 2 := by
  intro as l a
  have hvisible : ∀ u ∈ l.underlines, u.Visible := by decide
  obtain ⟨hshows, hmore⟩ := shows_iff_attemptAll ['a', 'b', 'c'] false 1 as hvisible
  have hadds : a.Adds l (Pen.beneath {} ⟨2, 2⟩ []) :=
    .intro {} [] (.within (some 2) (some 2)) (by decide) (by decide)
  have hshown : ∀ c : Nat, c < 3 → l.Shows c := by
    intro c hc
    refine (hshows c).mpr ⟨⟨Pen.beneath {} ⟨0, 3⟩ [], by decide, Int.natCast_nonneg c, ?_⟩, ?_⟩
    · exact Int.ofNat_lt.mpr hc
    · rintro ⟨u, hu, hstart, hstop⟩
      have hcases : ∀ u ∈ l.underlines, u.start < u.stop ∨ u.start = 3 := by decide
      have := hcases u hu
      omega
  have hvisible' : (Pen.beneath {} ⟨2, 2⟩ []).Visible := by decide
  refine ⟨hvisible, hshown 2 (by decide), ?_, ?_⟩
  · exact (hmore a _ hadds hvisible' 1 (hshown 1 (by decide))).mpr (by decide)
  · rw [hmore a _ hadds hvisible' 2 (hshown 2 (by decide))]
    decide

/-- **A covered cell can be blank**: an empty underline in front of the last cell of another one is
taken, and that cell, which was drawn before, is blank from then on though it is covered still. -/
theorem covered_and_blank :
    let l := (bare ['a', 'b', 'c']).attempt (.underline (.within (some 0) (some 3)) {} [])
    let a : Annotation := .underline (.within (some 2) (some 2)) {} []
    let l' := l.attempt a
    l.underlines.length = 1 ∧ l.Shows 2 ∧ l'.underlines.length = 2 ∧
      (∀ u ∈ l'.underlines, u.Visible) ∧ l'.Covered 2 ∧ ¬ l'.Shows 2 := by
  intro l a l'
  refine ⟨by decide, by decide, by decide, by decide, ?_, by decide⟩
  exact ⟨Pen.beneath {} ⟨0, 3⟩ [], by decide, by decide⟩

end Line

end Marginalia
