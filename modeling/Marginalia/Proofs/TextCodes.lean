import Marginalia.Proofs.TextRow
import Mathlib.Data.List.TakeWhile

/-!
# The codes in front of a character

The scan of a text row carries the open tints along from one character to the next. What it puts in
front of a character can be told without it: at each position `i` of a text, the open tints are
those that began before `i` and stop at `i` or later, in order of their starts, and those still to
come are the ones that begin at `i` or later (`TextRow.emit_scan`). So the codes at a position are
read off the tints that stop, go on and begin there (`Tint.codesAt`).

Results:
* `TextRow.visible_eq`: the tints that show on a text, sorted after they are chosen.
* `Line.showText_colored`: the coloured text of a line, position by position.
-/

namespace Marginalia

namespace Tint

/-- The codes that begin some tints. -/
def beginning (tints : List Tint) : Text := tints.flatMap (·.on)

/-- The codes that end some tints, one for neighbours that end alike. -/
def ending (tints : List Tint) : Text := (tints.map (·.off)).eraseReps.flatten

/-- The codes in front of the character at a position: of the tints that stop there, then, if there
are any such, of those that go on, and then of those that begin there. -/
def codesAt (tints : List Tint) (i : Int) : Text :=
  let ended := tints.filter (·.stop = i)
  ending ended ++
    (if ended = [] then [] else beginning (tints.filter fun t => t.start < i ∧ i < t.stop)) ++
    beginning (tints.filter (·.start = i))

end Tint

/-- The tints that show on the text of a line: those that are not empty and begin on it, in order of
their starts, and as they came where they start together. -/
def Line.showing (l : Line) : List Tint :=
  (l.tints.filter fun t => t.start < t.stop ∧ t.start < (l.text.length : Int)).mergeSort
    fun s t => s.start ≤ t.start

theorem Line.showing_eq_inOrder (l : Line) : l.showing = inOrder (·.start)
    (l.tints.filter fun t => t.start < t.stop ∧ t.start < (l.text.length : Int)) :=
  (inOrder_eq_mergeSort _ _).symm

namespace TextRow

/-- What the scan begins with: chosen from the sorted tints or sorted after the choice. -/
theorem visible_eq (l : Line) : visible l.tints l.text.length = l.showing := by
  rw [visible, inOrder_filter, Line.showing_eq_inOrder]

theorem emit_closing (tints : List Tint) : (closing tints).emit true = Tint.ending tints := by
  rw [closing, Row.closing, Row.emit, List.flatMap_map, Tint.ending, List.flatten_eq_flatMap]
  rfl

theorem emit_opening (tints : List Tint) : (opening tints).emit true = Tint.beginning tints := by
  rw [opening, Row.emit, List.flatMap_map, Tint.beginning]
  rfl

/-- What the scan puts in front of a character, if it has the right tints open. -/
theorem emit_codes (tints : List Tint) (i : Int) :
    (closing (tints.filter (·.stop = i)) ++
      (if (tints.filter (·.stop = i)).isEmpty then []
        else opening (tints.filter fun t => t.start < i ∧ i < t.stop)) ++
      opening (tints.filter (·.start = i))).emit true = Tint.codesAt tints i := by
  rw [Row.emit_append, Row.emit_append, emit_closing, emit_opening, Tint.codesAt]
  cases tints.filter (·.stop = i) with
  | nil => rfl
  | cons t ended => rw [if_neg (by simp), if_neg (by simp), emit_opening]

section Scan

variable {tints : List Tint}

/-- Of the tints still to come, those that begin here are the first ones. -/
theorem coming_eq_append (hsorted : tints.Pairwise fun s t => s.start ≤ t.start) (i : Int) :
    tints.filter (i ≤ ·.start) =
      tints.filter (·.start = i) ++ tints.filter (i + 1 ≤ ·.start) := by
  rw [filter_eq_append_of_sorted hsorted (i + 1)]
  congr 1 <;> refine List.filter_congr fun t _ => ?_
  · rw [decide_eq_decide]
    omega
  · rw [decide_eq_decide]
    omega

theorem takeWhile_coming (hsorted : tints.Pairwise fun s t => s.start ≤ t.start) (i : Int) :
    (tints.filter (i ≤ ·.start)).takeWhile (·.start = i) = tints.filter (·.start = i) := by
  have hlater : (tints.filter (i + 1 ≤ ·.start)).takeWhile (·.start = i) = [] := by
    refine List.takeWhile_eq_nil_iff.mpr fun hpos => ?_
    have := (List.mem_filter.mp (List.get_mem _ ⟨0, hpos⟩)).2
    simp only [decide_eq_true_eq] at this ⊢
    omega
  rw [coming_eq_append hsorted, List.takeWhile_append_of_pos fun t ht => (List.mem_filter.mp ht).2,
    hlater, List.append_nil]

theorem dropWhile_coming (hsorted : tints.Pairwise fun s t => s.start ≤ t.start) (i : Int) :
    (tints.filter (i ≤ ·.start)).dropWhile (·.start = i) = tints.filter (i + 1 ≤ ·.start) := by
  have hall := List.takeWhile_append_dropWhile (p := fun t : Tint => t.start = i)
    (l := tints.filter (i ≤ ·.start))
  rw [takeWhile_coming hsorted] at hall
  exact List.append_cancel_left (hall.trans (coming_eq_append hsorted i))

/-- Those that go on and those that begin here are what is open at the next position. -/
theorem opened_succ (hsorted : tints.Pairwise fun s t => s.start ≤ t.start)
    (hshow : ∀ t ∈ tints, t.start < t.stop) (i : Int) :
    tints.filter (fun t => t.start < i ∧ i < t.stop) ++ tints.filter (·.start = i) =
      tints.filter fun t => t.start < i + 1 ∧ i + 1 ≤ t.stop := by
  rw [filter_eq_append_of_sorted hsorted i (fun t => t.start < i + 1 ∧ i + 1 ≤ t.stop)]
  congr 1 <;> refine List.filter_congr fun t ht => ?_
  · rw [decide_eq_decide]
    omega
  · have := hshow t ht
    rw [decide_eq_decide]
    omega

/-- **The scan needs no memory.** From position `i` on, with the tints open that began before and
have not stopped, it gives the codes of each position. -/
theorem emit_scan (hsorted : tints.Pairwise fun s t => s.start ≤ t.start) : ∀ (rest : Text)
    (i : Nat), (∀ t ∈ tints, t.start < t.stop ∧ t.start < (i + rest.length : Nat)) →
    (scan rest i (tints.filter fun t => t.start < i ∧ i ≤ t.stop)
        (tints.filter ((i : Int) ≤ ·.start))).emit true =
      ((rest.zipIdx i).flatMap fun p => Tint.codesAt tints p.2 ++ [p.1]) ++
        Tint.ending (tints.filter fun t => ((i + rest.length : Nat) : Int) ≤ t.stop)
  | [], i, hshow => by
    have hopen : tints.filter (fun t => t.start < (i : Int) ∧ (i : Int) ≤ t.stop) =
        tints.filter fun t => (i : Int) ≤ t.stop := by
      refine List.filter_congr fun t ht => ?_
      have := hshow t ht
      rw [decide_eq_decide]
      simp only [List.length_nil] at this
      omega
    rw [scan, emit_closing, hopen]
    rfl
  | c :: rest, i, hshow => by
    have hended : (tints.filter fun t => t.start < (i : Int) ∧ (i : Int) ≤ t.stop).filter
        (·.stop = (i : Int)) = tints.filter (·.stop = (i : Int)) := by
      rw [List.filter_filter]
      refine List.filter_congr fun t ht => ?_
      have := hshow t ht
      rw [← Bool.decide_and, decide_eq_decide]
      omega
    have hkept : (tints.filter fun t => t.start < (i : Int) ∧ (i : Int) ≤ t.stop).filter
        (·.stop ≠ (i : Int)) = tints.filter fun t => t.start < (i : Int) ∧ (i : Int) < t.stop := by
      rw [List.filter_filter]
      refine List.filter_congr fun t _ => ?_
      rw [← Bool.decide_and, decide_eq_decide]
      omega
    have hnext : ∀ t ∈ tints, t.start < t.stop ∧ t.start < (i + 1 + rest.length : Nat) := by
      intro t ht
      have := hshow t ht
      rw [List.length_cons] at this
      omega
    have hrest := emit_scan hsorted rest (i + 1) hnext
    rw [show i + 1 + rest.length = i + (c :: rest).length by rw [List.length_cons]; omega] at hrest
    rw [scan_cons, hended, hkept, takeWhile_coming hsorted, dropWhile_coming hsorted,
      opened_succ hsorted fun t ht => (hshow t ht).1, List.zipIdx_cons, List.flatMap_cons,
      Row.emit_append, emit_codes, Row.emit_cons, List.append_assoc, List.append_assoc]
    exact congrArg (fun codes => Tint.codesAt tints i ++ ([c] ++ codes)) hrest

end Scan

end TextRow

namespace Line

/-- The tints that show, in order of their starts. -/
theorem sorted_showing (l : Line) : l.showing.Pairwise fun s t => s.start ≤ t.start := by
  rw [← TextRow.visible_eq]
  exact (inOrder_sorted _ l.tints).filter _

theorem mem_showing {l : Line} {t : Tint} : t ∈ l.showing ↔
    t ∈ l.tints ∧ t.start < t.stop ∧ t.start < (l.text.length : Int) := by
  rw [showing, List.mem_mergeSort, List.mem_filter, decide_eq_true_iff]

/-- The coloured text of a line: each character behind the codes of its position, and the codes at
the end. -/
theorem showText_eq_codes {l : Line} (h : ∀ t ∈ l.tints, 0 ≤ t.start) :
    l.showText true = (l.text.zipIdx.flatMap fun p => Tint.codesAt l.showing p.2 ++ [p.1]) ++
      Tint.ending (l.showing.filter fun t => (l.text.length : Int) ≤ t.stop) := by
  have hshow : ∀ t ∈ l.showing, t.start < t.stop ∧ t.start < (0 + l.text.length : Nat) := by
    intro t ht
    have := mem_showing.mp ht
    omega
  have hopened : l.showing.filter (fun t =>
      t.start < ((0 : Nat) : Int) ∧ ((0 : Nat) : Int) ≤ t.stop) = [] := by
    refine List.filter_eq_nil_iff.mpr fun t ht => ?_
    have := h t (mem_showing.mp ht).1
    rw [decide_eq_true_iff]
    omega
  have hcoming : l.showing.filter (((0 : Nat) : Int) ≤ ·.start) = l.showing := by
    refine List.filter_eq_self.mpr fun t ht => ?_
    have := h t (mem_showing.mp ht).1
    rw [decide_eq_true_iff]
    omega
  have hscan := TextRow.emit_scan l.sorted_showing l.text 0 hshow
  rw [hopened, hcoming, Nat.zero_add] at hscan
  rw [showText, textRow, TextRow.visible_eq]
  exact hscan

/-- **The coloured text of a line, position by position.** If no tint begins before the text, and
none ever does (`Line.accept` refuses it), each character has the codes of its position in front,
which depend only on the tints that show: those that stop there, those that go on and those that
begin there. Behind the last character stand the codes that end the tints that go on to the end of
the text or past it. -/
theorem showText_colored {l : Line} (h : ∀ t ∈ l.tints, 0 ≤ t.start) :
    l.showText true =
      ((List.finRange l.text.length).flatMap fun i : Fin l.text.length =>
        Tint.codesAt l.showing (i : Nat) ++ [l.text[i]]) ++
        Tint.ending (l.showing.filter fun t => (l.text.length : Int) ≤ t.stop) := by
  have hpositions : l.text.zipIdx =
      (List.finRange l.text.length).map fun i : Fin l.text.length => (l.text[i], (i : Nat)) :=
    List.ext_getElem (by simp) fun i _ _ => by simp
  rw [showText_eq_codes h, hpositions, List.flatMap_map]

/-- Of three tints over four characters two stop together, and the third one goes on past the
end. -/
theorem showText_colored_stopping_together :
    let l : Line := { text := ['a', 'b', 'c', 'd'], tints := [
      { start := 1, stop := 9, on := ['2'], off := ['/'] },
      { start := 0, stop := 3, on := ['1'], off := ['.'] },
      { start := 1, stop := 3, on := ['3'], off := ['.'] }] }
    (∀ t ∈ l.tints, 0 ≤ t.start) ∧
      l.showText true = ['1', 'a', '2', '3', 'b', 'c', '.', '2', 'd', '/'] := by
  intro l
  have h : ∀ t ∈ l.tints, 0 ≤ t.start := by decide
  refine ⟨h, ?_⟩
  rw [showText_colored h, ← TextRow.visible_eq]
  decide

end Line

end Marginalia
