import Marginalia.Proofs.Joining.Beneath

/-!
# Underlines that stand apart across a seam

`Line.append` looks for no collisions between the underlines of two lines. It need not if each
underline of the first line begins beneath its text and takes at most the first cell behind it: what
comes from the second line begins on the seam or behind it, and two spans of the same line are moved
along together, which changes nothing between them (`Span.collides_shift`). So the joined line is
again one on which the underlines stand apart, and the part of it behind the seam takes one more
underline just as the second line does.

An underline that begins on the seam, even an empty one, or that reaches two cells over it, can
collide with one of the second line.

Results:
* `Line.accepts_underline_iff`: an underline is taken iff it collides with none.
* `Line.apart_underlines_append`: when two lines with underlines that stand apart make another.
-/

namespace Marginalia

namespace Span

variable {s t : Span} {seam : Int}

/-- A span that begins before some cell and takes no more than that cell stands together with every
one that begins there or behind it. -/
theorem not_collides_across (hstart : s.start < seam) (hstop : s.stop ≤ seam + 1)
    (ht : seam ≤ t.start) : ¬ s.Collides t := by
  have hlt : s.start < t.start := by omega
  have hle : s.stop ≤ t.start + 1 := by omega
  exact not_collides_iff.mpr (Or.inl ⟨hlt, hle⟩)

end Span

namespace Underline

@[simp] theorem toSpan_shift (u : Underline) (offset : Int) :
    (u.shift offset).toSpan = u.toSpan.shift offset := rfl

theorem apart_map_shift {us : List Underline} (h : Span.Apart Underline.toSpan us) (offset : Int) :
    Span.Apart Underline.toSpan (us.map (·.shift offset)) := by
  refine List.pairwise_map.mpr (h.imp fun hfree => ?_)
  rw [toSpan_shift, toSpan_shift, Span.collides_shift]
  exact hfree

end Underline

namespace Line

variable {l a b : Line}

/-- **A line takes an underline** with a proper span iff that collides with none of its own. -/
theorem accepts_underline_iff {p : Place} {s : Span} (hplace : p.Denotes l.text.length s)
    (hs : s.Proper) (pen : Pen) (hint : Text) :
    (∃ l', l.annotate (.underline p pen hint) = .ok l') ↔
      ∀ u ∈ l.underlines, ¬ s.Collides u.toSpan := by
  have hlocate : l.locate p = .ok s := locate_eq_ok_iff.mpr ⟨hplace, hs⟩
  constructor
  · rintro ⟨l', hl'⟩ u hu hhit
    rw [annotate_underline_of_collides hlocate ⟨u, hu, hhit⟩] at hl'
    cases hl'
  · intro hfree
    exact ⟨_, annotate_underline_of_free hlocate hfree pen hint⟩

section Seam

variable (ha : ∀ u ∈ a.underlines, u.start < a.text.length ∧ u.stop ≤ a.text.length + 1)

include ha

/-- What begins on the seam or behind it collides only with what comes from the second line. -/
theorem free_append_iff {s : Span} (hs : 0 ≤ s.start) :
    (∀ u ∈ (a ++ b).underlines, ¬ (s.shift a.text.length).Collides u.toSpan) ↔
      ∀ u ∈ b.underlines, ¬ s.Collides u.toSpan := by
  have hleft : ∀ u ∈ a.underlines, ¬ (s.shift a.text.length).Collides u.toSpan := by
    intro u hu
    rw [Span.collides_comm]
    refine Span.not_collides_across (ha u hu).1 (ha u hu).2 ?_
    simp only [Span.shift]
    omega
  rw [underlines_append, List.forall_mem_append, and_iff_right hleft, List.forall_mem_map]
  refine forall₂_congr fun u _ => ?_
  rw [Underline.toSpan_shift, Span.collides_shift]

/-- **Two lines can be joined safely** if each has underlines that stand apart, and those of the
first begin beneath its text and take no more than one cell behind it. The underlines of the joined
line stand apart again, and it takes one more with a proper span behind the seam iff the second line
takes it where that span was before it was moved along. That no underline of the second line begins
before its text is true of every line, however it came about (`Line.Built.proper`). -/
theorem apart_underlines_append (hapart : Span.Apart Underline.toSpan a.underlines)
    (hapart' : Span.Apart Underline.toSpan b.underlines) (hb : ∀ u ∈ b.underlines, 0 ≤ u.start) :
    Span.Apart Underline.toSpan (a ++ b).underlines ∧
      ∀ s : Span, s.Proper → ∀ p p' : Place, p.Denotes b.text.length s →
        p'.Denotes (a ++ b).text.length (s.shift a.text.length) → ∀ (pen : Pen) (hint : Text),
        ((∃ l, (a ++ b).annotate (.underline p' pen hint) = .ok l) ↔
          ∃ l, b.annotate (.underline p pen hint) = .ok l) := by
  constructor
  · rw [underlines_append]
    refine List.pairwise_append.mpr ⟨hapart, Underline.apart_map_shift hapart' _, ?_⟩
    intro u hu v hv
    obtain ⟨w, hw, rfl⟩ := List.mem_map.mp hv
    refine Span.not_collides_across (ha u hu).1 (ha u hu).2 ?_
    have := hb w hw
    rw [Underline.start_shift]
    omega
  · intro s hs p p' hp hp' pen hint
    rw [accepts_underline_iff hp' (hs.shift _), accepts_underline_iff hp hs,
      free_append_iff ha hs.1]

end Seam

/-- The first line has an underline that reaches one cell over the seam and another that ends
there. The second has one that begins with its text, so that its first cell is shared. What is
refused on the second line is refused behind the seam too. -/
theorem apart_underlines_append_reaching :
    let a : Line := { text := ['a', 'b', 'c'], underlines := [
      { start := 2, stop := 4 }, { start := 0, stop := 3 }] }
    let b : Line := { text := ['d', 'e'], underlines := [{ start := 0, stop := 2 }] }
    ((∀ u ∈ a.underlines, u.start < a.text.length ∧ u.stop ≤ a.text.length + 1) ∧
      Span.Apart Underline.toSpan a.underlines ∧ Span.Apart Underline.toSpan b.underlines ∧
      ∀ u ∈ b.underlines, 0 ≤ u.start) ∧
      Span.Apart Underline.toSpan (a ++ b).underlines ∧
      (∃ l, (a ++ b).annotate (.underline (.within (some 4) (some 9)) {} []) = .ok l) ∧
      ¬ ∃ l, (a ++ b).annotate (.underline (.within (some 3) (some 3)) {} []) = .ok l := by
  intro a b
  have ha : ∀ u ∈ a.underlines, u.start < a.text.length ∧ u.stop ≤ a.text.length + 1 := by decide
  have hapart : Span.Apart Underline.toSpan a.underlines := by unfold Span.Apart; decide
  have hapart' : Span.Apart Underline.toSpan b.underlines := by unfold Span.Apart; decide
  have hb : ∀ u ∈ b.underlines, 0 ≤ u.start := by decide
  obtain ⟨hjoined, htakes⟩ := apart_underlines_append ha hapart hapart' hb
  refine ⟨⟨ha, hapart, hapart', hb⟩, hjoined, ?_, ?_⟩
  · refine (htakes ⟨1, 6⟩ (by decide) (.within (some 1) (some 6)) _ (.within _ _) (.within _ _)
      {} []).mpr ?_
    exact (accepts_underline_iff (.within _ _) (by decide) {} []).mpr (by decide)
  · rw [htakes ⟨0, 0⟩ (by decide) (.within (some 0) (some 0)) _ (.within _ _) (.within _ _) {} [],
      accepts_underline_iff (.within _ _) (by decide) {} []]
    decide

end Line

end Marginalia
