import Marginalia.Proofs.Collision
import Marginalia.Source.Basic

/-!
# Line breaks and the lines between them

A search from left to right finds the breaks of a text one after the other, none of them within
another: `Convention.breaks`. The lines that the text is cut into are what lies between them
(`Convention.breaks_eq_breaksOf`), so that a line and the break behind it can be read off the starts
and the extents of the lines.

Results:
* `Convention.cut_cons_of_mem`, `Convention.cut_cons_of_not_mem`: the cut along a text, one
  character at a time.
* `Convention.ended_cut`: every line but the last ends in a break of one or two characters.
* `Convention.size_cut`: the lines with their breaks take up the whole text.
* `Source.mem_breaksOf_iff`: where each break is.
-/

namespace Marginalia

namespace Convention

/-- The breaks that a search from left to right finds in a text whose first character has the offset
`i`. A carriage return with its line feed is looked for before any single character. -/
def breaks (k : Convention) : Text → Int → List Span
  | [], _ => []
  | [c], i => if c ∈ k.singles then [⟨i, i + 1⟩] else []
  | c :: d :: rest, i =>
    if k.pair ∧ c = '\r' ∧ d = '\n' then ⟨i, i + 2⟩ :: breaks k rest (i + 2)
    else if c ∈ k.singles then ⟨i, i + 1⟩ :: breaks k (d :: rest) (i + 1)
    else breaks k (d :: rest) (i + 1)

end Convention

namespace Source

/-- The breaks of a source, as offsets into its content. -/
def breaks (s : Source) : List Span := s.convention.breaks s.content 0

/-- There is a last line, without a break, and each line before it ends in a break of one or two
characters. -/
def Ended : List SourceLine → Prop
  | [] => False
  | [l] => l.ending = []
  | l :: next :: rest => (l.ending.length = 1 ∨ l.ending.length = 2) ∧ Ended (next :: rest)

/-- The breaks between some lines, the first of which starts at the offset `i`. -/
def breaksOf : List SourceLine → Int → List Span
  | l :: next :: rest, i =>
    ⟨i + l.text.length, i + l.extent⟩ :: breaksOf (next :: rest) (i + l.extent)
  | _, _ => []

@[simp] theorem size_nil : size [] = 0 := rfl

@[simp] theorem size_cons (l : SourceLine) (ls : List SourceLine) :
    size (l :: ls) = l.extent + size ls := rfl

theorem size_append (ls rest : List SourceLine) : size (ls ++ rest) = size ls + size rest := by
  induction ls with
  | nil => simp
  | cons l ls ih => rw [List.cons_append, size_cons, size_cons, ih, Nat.add_assoc]

theorem Ended.ne_nil {ls : List SourceLine} (h : Ended ls) : ls ≠ [] := by
  rintro rfl
  exact h

theorem Ended.cons {l : SourceLine} {ls : List SourceLine} (h : Ended ls)
    (hl : l.ending.length = 1 ∨ l.ending.length = 2) : Ended (l :: ls) := by
  cases ls with
  | nil => exact absurd h id
  | cons next rest => exact ⟨hl, h⟩

theorem breaksOf_cons {ls : List SourceLine} (h : ls ≠ []) (l : SourceLine) (i : Int) :
    breaksOf (l :: ls) i = ⟨i + l.text.length, i + l.extent⟩ :: breaksOf ls (i + l.extent) := by
  cases ls with
  | nil => exact absurd rfl h
  | cons next rest => rfl

/-! ## One character more in front -/

section Front

variable {ls : List SourceLine} (c : Char)

theorem extent_cons (l : SourceLine) : (l.cons c).extent = l.extent + 1 := by
  simp [SourceLine.cons, SourceLine.extent]
  omega

theorem Ended.modifyHead (h : Ended ls) : Ended (ls.modifyHead (.cons c)) := by
  match ls, h with
  | [l], h => exact h
  | l :: next :: rest, h => exact h

theorem size_modifyHead (h : ls ≠ []) : size (ls.modifyHead (.cons c)) = size ls + 1 := by
  cases ls with
  | nil => exact absurd rfl h
  | cons l rest =>
    rw [List.modifyHead_cons, size_cons, size_cons, extent_cons]
    omega

theorem breaksOf_modifyHead (i : Int) :
    breaksOf (ls.modifyHead (.cons c)) i = breaksOf ls (i + 1) := by
  match ls with
  | [] => rfl
  | [l] => rfl
  | l :: next :: rest =>
    have hstart : i + ((l.cons c).text.length : Int) = i + 1 + l.text.length := by
      simp [SourceLine.cons]
      omega
    have hstop : i + ((l.cons c).extent : Int) = i + 1 + l.extent := by
      rw [extent_cons]
      omega
    rw [List.modifyHead_cons, breaksOf, breaksOf, hstart, hstop]

end Front

end Source

namespace Convention

open Source

section Step

variable {k : Convention} {c : Char} {rest : Text}

/-- A single character that is a break ends an empty line in front. -/
theorem cut_cons_of_mem (hc : c ∈ k.singles)
    (hpair : ¬ (k.pair ∧ c = '\r' ∧ rest.head? = some '\n')) :
    k.cut (c :: rest) = { ending := [c] } :: k.cut rest := by
  cases rest with
  | nil => rw [cut, cut, if_pos hc]
  | cons d rest => rw [cut, if_neg (by simpa using hpair), if_pos hc]

/-- Any other character goes in front of the first line. -/
theorem cut_cons_of_not_mem (hc : c ∉ k.singles)
    (hpair : ¬ (k.pair ∧ c = '\r' ∧ rest.head? = some '\n')) :
    k.cut (c :: rest) = (k.cut rest).modifyHead (.cons c) := by
  cases rest with
  | nil =>
    rw [cut, cut, if_neg hc]
    rfl
  | cons d rest => rw [cut, if_neg (by simpa using hpair), if_neg hc]

theorem map_text_modifyHead (c : Char) (ls : List SourceLine) :
    (ls.modifyHead (.cons c)).map (·.text) = (ls.map (·.text)).modifyHead (c :: ·) := by
  cases ls <;> rfl

end Step

variable (k : Convention)

/-- **Every line but the last ends in a break of one or two characters.** -/
theorem ended_cut : ∀ t : Text, Ended (k.cut t)
  | [] => rfl
  | [c] => by
    rw [cut]
    split
    · exact ⟨Or.inl rfl, rfl⟩
    · rfl
  | c :: d :: rest => by
    rw [cut]
    split
    · exact (ended_cut rest).cons (Or.inr rfl)
    · split
      · exact (ended_cut (d :: rest)).cons (Or.inl rfl)
      · exact (ended_cut (d :: rest)).modifyHead c

/-- **The lines with their breaks take up the whole text.** -/
theorem size_cut : ∀ t : Text, size (k.cut t) = t.length
  | [] => rfl
  | [c] => by
    rw [cut]
    split <;> rfl
  | c :: d :: rest => by
    rw [cut]
    split
    · rw [size_cons, size_cut rest]
      simp [SourceLine.extent]
      omega
    · split
      · rw [size_cons, size_cut (d :: rest)]
        simp [SourceLine.extent]
        omega
      · rw [size_modifyHead c (k.ended_cut (d :: rest)).ne_nil, size_cut (d :: rest)]
        rfl

/-- There are no more lines than characters, but for the last one. -/
theorem length_cut_le : ∀ t : Text, (k.cut t).length ≤ t.length + 1
  | [] => Nat.le_refl 1
  | [c] => by
    rw [cut]
    split <;> simp
  | c :: d :: rest => by
    have hrest := length_cut_le rest
    have hafter := length_cut_le (d :: rest)
    rw [cut]
    split
    · simp only [List.length_cons]
      omega
    · split
      · simp only [List.length_cons] at hafter ⊢
        omega
      · rw [List.length_modifyHead]
        simp only [List.length_cons] at hafter ⊢
        omega

/-- **The breaks that are found are those between the lines.** -/
theorem breaks_eq_breaksOf : ∀ (t : Text) (i : Int), k.breaks t i = breaksOf (k.cut t) i
  | [], _ => rfl
  | [c], i => by
    rw [breaks, cut]
    split
    · simp [breaksOf, SourceLine.extent]
    · rfl
  | c :: d :: rest, i => by
    rw [breaks, cut]
    split
    · rw [breaksOf_cons (k.ended_cut rest).ne_nil, breaks_eq_breaksOf rest]
      simp [SourceLine.extent]
    · split
      · rw [breaksOf_cons (k.ended_cut (d :: rest)).ne_nil, breaks_eq_breaksOf (d :: rest)]
        simp [SourceLine.extent]
      · rw [breaksOf_modifyHead, breaks_eq_breaksOf (d :: rest)]

end Convention

namespace Source

theorem mem_breaksOf_iff {ls : List SourceLine} {i : Int} {b : Span} :
    b ∈ breaksOf ls i ↔ ∃ j l, ls[j]? = some l ∧ j + 1 < ls.length ∧
      b = ⟨i + size (ls.take j) + l.text.length, i + size (ls.take j) + l.extent⟩ := by
  induction ls generalizing i with
  | nil => simp [breaksOf]
  | cons l ls ih =>
    cases ls with
    | nil => simp [breaksOf]
    | cons next rest =>
      rw [breaksOf, List.mem_cons, ih]
      constructor
      · rintro (rfl | ⟨j, l', hl', hj, rfl⟩)
        · exact ⟨0, l, rfl, by simp, by simp⟩
        · refine ⟨j + 1, l', hl', by simpa using hj, ?_⟩
          rw [List.take_succ_cons, size_cons]
          congr 1 <;> omega
      · rintro ⟨j, l', hl', hj, rfl⟩
        cases j with
        | zero =>
          obtain rfl : l = l' := by simpa using hl'
          exact Or.inl (by simp)
        | succ j =>
          refine Or.inr ⟨j, l', hl', by simpa using hj, ?_⟩
          rw [List.take_succ_cons, size_cons]
          congr 1 <;> omega

/-- Which lines end in a break, by their place among the others. -/
theorem Ended.ending {ls : List SourceLine} (h : Ended ls) {j : Nat} {l : SourceLine}
    (hl : ls[j]? = some l) :
    if j + 1 < ls.length then l.ending.length = 1 ∨ l.ending.length = 2 else l.ending = [] := by
  induction ls generalizing j with
  | nil => exact absurd h id
  | cons l' ls ih =>
    match ls, h, j with
    | [], h, 0 =>
      obtain rfl : l' = l := by simpa using hl
      rw [if_neg (by simp)]
      exact h
    | next :: rest, h, 0 =>
      obtain rfl : l' = l := by simpa using hl
      rw [if_pos (by simp)]
      exact h.1
    | next :: rest, h, j + 1 =>
      have hrest : (next :: rest)[j]? = some l := hl
      simpa using ih h.2 hrest

end Source

end Marginalia
