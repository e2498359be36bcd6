import Marginalia.Span

/-!
# The collision rule

Two spans may stand together when the one that starts second begins no earlier than the last cell
of the first, and after its first cell (`Span.not_collides_iff`). So spans that stand together have
different starts, and no three of them share a cell (`Span.count_contains_le_two`).

Read cell by cell, two spans that cover something may share one cell at most: the last one of the
span that starts first, if it is the first one of the other (`Span.collides_iff_cells`).
-/

namespace Marginalia.Span

/-- The span neither begins before the text nor is reversed. -/
def Proper (s : Span) : Prop := 0 ≤ s.start ∧ s.start ≤ s.stop

instance (s : Span) : Decidable s.Proper := inferInstanceAs (Decidable (_ ∧ _))

theorem Proper.shift {s : Span} (h : s.Proper) (n : Nat) : (s.shift n).Proper := by
  have hstart := h.1
  have hwidth := h.2
  constructor <;> simp only [Span.shift] <;> omega

/-- The span covers a cell. -/
def Contains (s : Span) (c : Int) : Prop := s.start ≤ c ∧ c < s.stop

instance (s : Span) (c : Int) : Decidable (s.Contains c) := inferInstanceAs (Decidable (_ ∧ _))

/-- **The spans that stand together**: they start apart, and the later one takes at most the last
cell of the earlier one. -/
theorem not_collides_iff {a b : Span} :
    ¬ a.Collides b ↔ a.start < b.start ∧ a.stop ≤ b.start + 1 ∨
      b.start < a.start ∧ b.stop ≤ a.start + 1 := by
  unfold Collides
  by_cases h : Precedes b a
  · rw [if_pos h]
    unfold Precedes at h
    unfold RunsInto
    omega
  · rw [if_neg h]
    unfold Precedes at h
    unfold RunsInto
    omega

theorem collides_comm {a b : Span} : a.Collides b ↔ b.Collides a := by
  rw [← Decidable.not_iff_not, not_collides_iff, not_collides_iff]
  exact Or.comm

/-- Spans that are moved along together collide as they did before. -/
theorem collides_shift {a b : Span} (offset : Int) :
    (a.shift offset).Collides (b.shift offset) ↔ a.Collides b := by
  rw [← Decidable.not_iff_not, not_collides_iff, not_collides_iff]
  simp only [shift]
  omega

theorem start_ne_of_not_collides {a b : Span} (h : ¬ a.Collides b) : a.start ≠ b.start := by
  have := not_collides_iff.mp h
  omega

/-- The span that starts later begins on the last cell of the earlier one or behind it. -/
theorem lt_and_le_of_not_collides {a b : Span} (h : ¬ a.Collides b) (hle : a.start ≤ b.start) :
    a.start < b.start ∧ a.stop ≤ b.start + 1 := by
  have := not_collides_iff.mp h
  omega

/-- Of three spans that pairwise stand together, one leaves out any given cell. -/
theorem not_contains_of_not_collides {a b d : Span} (hab : ¬ a.Collides b) (had : ¬ a.Collides d)
    (hbd : ¬ b.Collides d) {c : Int} (ha : a.Contains c) (hb : b.Contains c) : ¬ d.Contains c := by
  have hab := not_collides_iff.mp hab
  have had := not_collides_iff.mp had
  have hbd := not_collides_iff.mp hbd
  unfold Contains at *
  omega

/-! ## Cell by cell -/

/-- The first cell that a span covers. -/
def IsFirst (s : Span) (c : Int) : Prop := s.Contains c ∧ ∀ d, s.Contains d → c ≤ d

/-- The last cell that a span covers. -/
def IsLast (s : Span) (c : Int) : Prop := s.Contains c ∧ ∀ d, s.Contains d → d ≤ c

/-- Every cell that `a` has in common with `b` is its last one, and the first one of `b`. -/
def MeetsAtEdge (a b : Span) : Prop :=
  ∀ c, a.Contains c → b.Contains c → a.IsLast c ∧ b.IsFirst c

/-- A span that covers something and starts later is met at the edge iff it begins no earlier than
the last cell. -/
theorem meetsAtEdge_iff {a b : Span} (hstart : a.start < b.start) (hb : b.start < b.stop) :
    a.MeetsAtEdge b ↔ a.stop ≤ b.start + 1 := by
  constructor
  · intro h
    refine Decidable.byContradiction fun hstop => ?_
    -- the cell where `b` begins is covered by `a`, and so is the one behind it
    have hcell := h b.start ⟨by omega, by omega⟩ ⟨Int.le_refl _, hb⟩
    have hnext := hcell.1.2 (b.start + 1) ⟨by omega, by omega⟩
    omega
  · intro hstop c hac hbc
    unfold Contains at hac hbc
    refine ⟨⟨hac, fun d hd => ?_⟩, hbc, fun d hd => ?_⟩
    · unfold Contains at hd
      omega
    · unfold Contains at hd
      omega

/-- **The collision rule is the boundary-cell rule.** It is symmetric, moving both spans along
changes nothing, and spans that start together collide. Two spans that cover something stand
together iff they start apart and every cell that they share is the last one of the span that starts
first and the first one of the other. For the span that starts first this says that the other begins
no earlier than in its last cell. -/
theorem collides_iff_cells (a b : Span) :
    (a.Collides b ↔ b.Collides a) ∧
    (∀ offset, (a.shift offset).Collides (b.shift offset) ↔ a.Collides b) ∧
    (a.start = b.start → a.Collides b) ∧
    (a.start < a.stop → b.start < b.stop →
      (¬ a.Collides b ↔ a.start ≠ b.start ∧ (a.start < b.start → a.MeetsAtEdge b) ∧
        (b.start < a.start → b.MeetsAtEdge a))) ∧
    (a.start < b.start → (¬ a.Collides b ↔ a.stop - 1 ≤ b.start)) := by
  refine ⟨collides_comm, collides_shift, fun hstart => ?_, fun ha hb => ?_, fun hlt => ?_⟩
  · exact Decidable.not_not.mp fun hfree => start_ne_of_not_collides hfree hstart
  · rw [not_collides_iff]
    rcases Int.lt_trichotomy a.start b.start with hlt | heq | hgt
    · rw [meetsAtEdge_iff hlt hb]
      omega
    · omega
    · rw [meetsAtEdge_iff hgt ha]
      omega
  · rw [not_collides_iff]
    omega

/-- Two spans that meet in one cell, and a longer one in the place of the first. -/
theorem collides_iff_cells_touching :
    let a : Span := ⟨0, 3⟩
    let a' : Span := ⟨0, 4⟩
    let b : Span := ⟨2, 5⟩
    (a.start < a.stop ∧ a'.start < a'.stop ∧ b.start < b.stop ∧ a.start < b.start) ∧
      a.MeetsAtEdge b ∧ ¬ (a.shift 7).Collides (b.shift 7) ∧
      ¬ a'.MeetsAtEdge b ∧ b.Collides a' ∧ a.Collides a' := by
  intro a a' b
  have ha : a.start < a.stop := by decide
  have ha' : a'.start < a'.stop := by decide
  have hb : b.start < b.stop := by decide
  have hlt : a.start < b.start := by decide
  obtain ⟨-, hshift, -, hcells, hlast⟩ := collides_iff_cells a b
  obtain ⟨hcomm, -, -, hcells', -⟩ := collides_iff_cells a' b
  have hfree : ¬ a.Collides b := (hlast hlt).mpr (by decide)
  have hhit : a'.Collides b := by decide
  refine ⟨⟨ha, ha', hb, hlt⟩, ((hcells ha hb).mp hfree).2.1 hlt, mt (hshift 7).mp hfree,
    fun hmeets => ?_, hcomm.mp hhit, (collides_iff_cells a a').2.2.1 rfl⟩
  exact (hcells' ha' hb).mpr ⟨by decide, fun _ => hmeets, fun h => absurd h (by decide)⟩ hhit

section Marks

variable {α : Type} (span : α → Span)

/-- The spans of some marks pairwise stand together. -/
def Apart (marks : List α) : Prop := marks.Pairwise fun a b => ¬ (span a).Collides (span b)

variable {span}

/-- One more mark stands together with the others if it collides with none of them. -/
theorem apart_append {marks : List α} (h : Apart span marks) {a : α}
    (hfree : ∀ b ∈ marks, ¬ (span a).Collides (span b)) : Apart span (marks ++ [a]) := by
  refine List.pairwise_append.mpr ⟨h, List.pairwise_singleton _ a, ?_⟩
  intro b hb a' ha
  rw [List.mem_singleton.mp ha, collides_comm]
  exact hfree b hb

theorem starts_nodup_of_apart {marks : List α} (h : Apart span marks) :
    (marks.map fun a => (span a).start).Nodup :=
  List.pairwise_map.mpr (h.imp start_ne_of_not_collides)

/-- **No cell is covered three times** by marks that pairwise stand together. -/
theorem count_contains_le_two {marks : List α} (h : Apart span marks) (c : Int) :
    (marks.filter fun a => (span a).Contains c).length ≤ 2 := by
  have hapart : Apart span (marks.filter fun a => (span a).Contains c) := h.filter _
  have hcover : ∀ a ∈ marks.filter fun a => (span a).Contains c, (span a).Contains c :=
    fun a ha => by simpa using (List.mem_filter.mp ha).2
  match hm : marks.filter fun a => (span a).Contains c with
  | [] | [_] | [_, _] => simp
  | a :: b :: d :: rest =>
    rw [hm] at hapart hcover
    unfold Apart at hapart
    simp only [List.pairwise_cons, List.mem_cons] at hapart hcover
    exact absurd (hcover d (by simp)) (not_contains_of_not_collides (hapart.1 b (by simp))
      (hapart.1 d (by simp)) (hapart.2.1 d (by simp)) (hcover a (by simp)) (hcover b (by simp)))

end Marks

end Marginalia.Span
