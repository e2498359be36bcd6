import Marginalia.Proofs.TextCodes
import Mathlib.Data.List.Basic

/-!
# The text row of two lines joined

Where two lines are joined, the codes that end the tints of the first meet those that begin the
tints of the second. As long as no tint of the first line reaches past its text, the tints that show
on the joined line are those of the first and behind them those of the second, moved along with
their text (`Line.showing_append`). So the codes at each position of the first text are what they
were, at the seam stand the codes that ended the first text, and nothing there is begun again.

Results:
* `Tint.codesAt_seam`: the codes where the second text begins.
* `Line.showText_append`: the text row of two lines joined is their text rows joined.
-/

namespace Marginalia

namespace Tint

/-! ## The codes of tints of two sorts -/

section Sorts

variable {left right : List Tint} {i : Int}

/-- Tints that begin further on have no codes here. -/
theorem codesAt_append_left (h : ∀ t ∈ right, i < t.start ∧ t.start < t.stop) :
    codesAt (left ++ right) i = codesAt left i := by
  have hnone (p : Tint → Bool) (hp : ∀ t ∈ right, ¬ p t = true) :
      (left ++ right).filter p = left.filter p := by
    rw [List.filter_append, List.filter_eq_nil_iff.mpr hp, List.append_nil]
  rw [codesAt, codesAt, hnone, hnone, hnone]
  all_goals
    intro t ht
    have := h t ht
    rw [decide_eq_true_iff]
    omega

/-- Tints that have stopped before have no codes here. -/
theorem codesAt_append_right (h : ∀ t ∈ left, t.start < t.stop ∧ t.stop < i) :
    codesAt (left ++ right) i = codesAt right i := by
  have hnone (p : Tint → Bool) (hp : ∀ t ∈ left, ¬ p t = true) :
      (left ++ right).filter p = right.filter p := by
    rw [List.filter_append, List.filter_eq_nil_iff.mpr hp, List.nil_append]
  rw [codesAt, codesAt, hnone, hnone, hnone]
  all_goals
    intro t ht
    have := h t ht
    rw [decide_eq_true_iff]
    omega

/-- Where no tint has begun before, the codes are those of the tints that begin. -/
theorem codesAt_of_le_start (h : ∀ t ∈ right, i ≤ t.start ∧ t.start < t.stop) :
    codesAt right i = beginning (right.filter (·.start = i)) := by
  have hended : right.filter (·.stop = i) = [] := by
    refine List.filter_eq_nil_iff.mpr fun t ht => ?_
    have := h t ht
    rw [decide_eq_true_iff]
    omega
  rw [codesAt, hended]
  rfl

/-- **At the seam** the tints that come to an end are those of the left side, those that begin are
those of the right side, and none goes on. -/
theorem codesAt_seam (hleft : ∀ t ∈ left, t.start < t.stop ∧ t.stop ≤ i)
    (hright : ∀ t ∈ right, i ≤ t.start ∧ t.start < t.stop) :
    codesAt (left ++ right) i = ending (left.filter (i ≤ ·.stop)) ++ codesAt right i := by
  have hended : (left ++ right).filter (·.stop = i) = left.filter (i ≤ ·.stop) := by
    have hnone : right.filter (·.stop = i) = [] := by
      refine List.filter_eq_nil_iff.mpr fun t ht => ?_
      have := hright t ht
      rw [decide_eq_true_iff]
      omega
    rw [List.filter_append, hnone, List.append_nil]
    refine List.filter_congr fun t ht => ?_
    have := hleft t ht
    rw [decide_eq_decide]
    omega
  have hlasting : (left ++ right).filter (fun t => t.start < i ∧ i < t.stop) = [] := by
    refine List.filter_eq_nil_iff.mpr fun t ht => ?_
    rw [decide_eq_true_iff]
    rcases List.mem_append.mp ht with ht | ht
    · have := hleft t ht
      omega
    · have := hright t ht
      omega
  have hbegun : (left ++ right).filter (·.start = i) = right.filter (·.start = i) := by
    rw [List.filter_append, List.filter_eq_nil_iff.mpr, List.nil_append]
    intro t ht
    have := hleft t ht
    rw [decide_eq_true_iff]
    omega
  rw [codesAt_of_le_start hright, codesAt, hended, hlasting, hbegun]
  split <;> simp [beginning]

end Sorts

/-! ## Tints that are moved along -/

section Shift

@[simp] theorem start_shift (t : Tint) (offset : Int) :
    (t.shift offset).start = t.start + offset := rfl

@[simp] theorem stop_shift (t : Tint) (offset : Int) :
    (t.shift offset).stop = t.stop + offset := rfl

variable (tints : List Tint) (offset : Int)

theorem filter_map_shift {p q : Tint → Bool} (h : ∀ t, p (t.shift offset) = q t) :
    (tints.map (·.shift offset)).filter p = (tints.filter q).map (·.shift offset) := by
  rw [List.filter_map]
  congr 1
  exact List.filter_congr fun t _ => h t

theorem beginning_map_shift :
    beginning (tints.map (·.shift offset)) = beginning tints := by
  rw [beginning, List.flatMap_map]
  rfl

theorem ending_map_shift : ending (tints.map (·.shift offset)) = ending tints := by
  rw [ending, List.map_map]
  rfl

/-- **Codes move along with their tints.** -/
theorem codesAt_map_shift (i : Int) :
    codesAt (tints.map (·.shift offset)) (offset + i) = codesAt tints i := by
  have hstop : ∀ t : Tint, decide ((t.shift offset).stop = offset + i) = decide (t.stop = i) := by
    intro t
    rw [decide_eq_decide, stop_shift]
    omega
  have hlasting : ∀ t : Tint,
      decide ((t.shift offset).start < offset + i ∧ offset + i < (t.shift offset).stop) =
        decide (t.start < i ∧ i < t.stop) := by
    intro t
    rw [decide_eq_decide, start_shift, stop_shift]
    omega
  have hstart : ∀ t : Tint,
      decide ((t.shift offset).start = offset + i) = decide (t.start = i) := by
    intro t
    rw [decide_eq_decide, start_shift]
    omega
  rw [codesAt, filter_map_shift tints offset hstop, filter_map_shift tints offset hlasting,
    filter_map_shift tints offset hstart, ending_map_shift, beginning_map_shift,
    beginning_map_shift, codesAt]
  simp only [List.map_eq_nil_iff]

section Behind

variable {left right : List Tint} {n : Nat}
  (hleft : ∀ t ∈ left, t.start < t.stop ∧ t.stop ≤ (n : Int))

include hleft

/-- Behind the seam the codes are those of the right side. -/
theorem codesAt_behind {i : Nat} (hi : 0 < i) :
    codesAt (left ++ right.map (·.shift n)) ((i + n : Nat) : Int) = codesAt right i := by
  have hstopped : ∀ t ∈ left, t.start < t.stop ∧ t.stop < ((i + n : Nat) : Int) := by
    intro t ht
    have := hleft t ht
    omega
  rw [codesAt_append_right hstopped, show ((i + n : Nat) : Int) = n + (i : Int) by omega,
    codesAt_map_shift]

/-- At the end of the right side only its own tints are still to be ended. -/
theorem ending_behind {k : Nat} (hk : 0 < k) :
    ending ((left ++ right.map (·.shift n)).filter (((n + k : Nat) : Int) ≤ ·.stop)) =
      ending (right.filter ((k : Int) ≤ ·.stop)) := by
  have hnone : left.filter (((n + k : Nat) : Int) ≤ ·.stop) = [] := by
    refine List.filter_eq_nil_iff.mpr fun t ht => ?_
    have := hleft t ht
    rw [decide_eq_true_iff]
    omega
  have hmoved : ∀ t : Tint,
      decide (((n + k : Nat) : Int) ≤ (t.shift n).stop) = decide ((k : Int) ≤ t.stop) := by
    intro t
    rw [decide_eq_decide, stop_shift]
    omega
  rw [List.filter_append, hnone, List.nil_append, filter_map_shift right n hmoved,
    ending_map_shift]

/-- **The codes of a second text**, behind those that end the tints of the first. -/
theorem codes_behind {text : Text}
    (hright : ∀ t ∈ right, 0 ≤ t.start ∧ t.start < t.stop ∧ t.start < (text.length : Int)) :
    ((text.zipIdx n).flatMap fun p =>
        codesAt (left ++ right.map (·.shift n)) p.2 ++ [p.1]) ++
      ending ((left ++ right.map (·.shift n)).filter
        (((n + text.length : Nat) : Int) ≤ ·.stop)) =
    ending (left.filter ((n : Int) ≤ ·.stop)) ++
      ((text.zipIdx.flatMap fun p => codesAt right p.2 ++ [p.1]) ++
        ending (right.filter ((text.length : Int) ≤ ·.stop))) := by
  cases text with
  | nil =>
    -- A tint of an empty text would begin before it ends, so there is none.
    have hnil : right = [] := List.eq_nil_iff_forall_not_mem.mpr fun t ht => by
      have := hright t ht
      rw [List.length_nil] at this
      omega
    have hnone : ending [] = [] := rfl
    simp [hnil, hnone]
  | cons c rest =>
    have hseam : codesAt (left ++ right.map (·.shift n)) n =
        ending (left.filter ((n : Int) ≤ ·.stop)) ++ codesAt right ((0 : Nat) : Int) := by
      have hmoved := codesAt_map_shift right n 0
      rw [Int.add_zero] at hmoved
      rw [codesAt_seam hleft, hmoved]
      · rfl
      · intro t ht
        obtain ⟨u, hu, rfl⟩ := List.mem_map.mp ht
        have := hright u hu
        rw [start_shift, stop_shift]
        omega
    have hlater : ((rest.zipIdx (n + 1)).flatMap fun p =>
        codesAt (left ++ right.map (·.shift n)) p.2 ++ [p.1]) =
        (rest.zipIdx (0 + 1)).flatMap fun p => codesAt right p.2 ++ [p.1] := by
      have hmoved := List.map_snd_add_zipIdx_eq_zipIdx (l := rest) (n := n) (k := 0 + 1)
      rw [Nat.zero_add] at hmoved ⊢
      rw [← hmoved, List.flatMap_map]
      refine List.flatMap_congr fun p hp => ?_
      exact congrArg (· ++ [p.1]) (codesAt_behind hleft (List.le_snd_of_mem_zipIdx hp))
    rw [List.zipIdx_cons, List.zipIdx_cons, List.flatMap_cons, List.flatMap_cons, hseam, hlater,
      ending_behind hleft (by simp)]
    simp only [List.append_assoc]

end Behind

end Shift

end Tint

namespace Line

variable {a b : Line}

theorem text_append (a b : Line) : (a ++ b).text = a.text ++ b.text := rfl

theorem tints_append (a b : Line) :
    (a ++ b).tints = a.tints ++ b.tints.map (·.shift a.text.length) := rfl

/-- **The tints that show on two lines joined** are those of the first and behind them those of the
second. -/
theorem showing_append (ha : ∀ t ∈ a.tints, t.stop ≤ (a.text.length : Int))
    (hb : ∀ t ∈ b.tints, 0 ≤ t.start) :
    (a ++ b).showing = a.showing ++ b.showing.map (·.shift a.text.length) := by
  have hmap : ∀ tints : List Tint, inOrder (·.start) (tints.map (·.shift a.text.length)) =
      (inOrder (·.start) tints).map (·.shift a.text.length) := by
    refine inOrder_map _ fun s t => ?_
    rw [Tint.start_shift, Tint.start_shift]
    omega
  have hleft : a.tints.filter (fun t => t.start < t.stop ∧ t.start < ((a ++ b).text.length : Int)) =
      a.tints.filter fun t => t.start < t.stop ∧ t.start < (a.text.length : Int) := by
    refine List.filter_congr fun t ht => ?_
    have := ha t ht
    rw [decide_eq_decide, text_append, List.length_append]
    omega
  have hright : ∀ t : Tint,
      decide ((t.shift a.text.length).start < (t.shift a.text.length).stop ∧
        (t.shift a.text.length).start < ((a ++ b).text.length : Int)) =
      decide (t.start < t.stop ∧ t.start < (b.text.length : Int)) := by
    intro t
    rw [decide_eq_decide, text_append, List.length_append, Tint.start_shift, Tint.stop_shift]
    omega
  rw [showing_eq_inOrder, showing_eq_inOrder, showing_eq_inOrder, ← hmap, tints_append,
    List.filter_append, hleft, Tint.filter_map_shift _ _ hright, inOrder_append]
  intro s hs t ht
  obtain ⟨u, hu, rfl⟩ := List.mem_map.mp ht
  have hs := (List.mem_filter.mp hs).2
  have hu := hb u (List.mem_filter.mp hu).1
  rw [decide_eq_true_iff] at hs
  rw [Tint.start_shift]
  omega

/-- **The text row of two lines joined is their text rows joined**, with their codes or without, if
no tint of the first line reaches past its text. No tint begins before a text: `Line.accept` refuses
it, and joining lines moves none to the left. -/
theorem showText_append (ha : ∀ t ∈ a.tints, 0 ≤ t.start ∧ t.stop ≤ (a.text.length : Int))
    (hb : ∀ t ∈ b.tints, 0 ≤ t.start) (colored : Bool) :
    (a ++ b).showText colored = a.showText colored ++ b.showText colored := by
  cases colored with
  | false => rw [showText_plain, showText_plain, showText_plain, text_append]
  | true =>
    have ha' : ∀ t ∈ a.showing, t.start < t.stop ∧ t.stop ≤ (a.text.length : Int) := by
      intro t ht
      obtain ⟨hmem, hstop, -⟩ := mem_showing.mp ht
      exact ⟨hstop, (ha t hmem).2⟩
    have hb' : ∀ t ∈ b.showing,
        0 ≤ t.start ∧ t.start < t.stop ∧ t.start < (b.text.length : Int) := by
      intro t ht
      obtain ⟨hmem, hshow⟩ := mem_showing.mp ht
      exact ⟨hb t hmem, hshow⟩
    have hab : ∀ t ∈ (a ++ b).tints, 0 ≤ t.start := by
      intro t ht
      rcases List.mem_append.mp ht with ht | ht
      · exact (ha t ht).1
      · obtain ⟨u, hu, rfl⟩ := List.mem_map.mp ht
        have := hb u hu
        rw [Tint.start_shift]
        omega
    rw [showText_eq_codes hab, showText_eq_codes fun t ht => (ha t ht).1, showText_eq_codes hb,
      showing_append (fun t ht => (ha t ht).2) hb, text_append, List.zipIdx_append,
      List.flatMap_append, List.append_assoc, List.append_assoc, Nat.zero_add, List.length_append,
      Tint.codes_behind ha' hb']
    congr 1
    refine List.flatMap_congr fun p hp => ?_
    have hlt := List.snd_lt_of_mem_zipIdx hp
    rw [Tint.codesAt_append_left]
    intro t ht
    obtain ⟨u, hu, rfl⟩ := List.mem_map.mp ht
    have := hb' u hu
    rw [Tint.start_shift, Tint.stop_shift]
    omega

/-- At the seam two tints of the first line stop together, and two of the second begin, one of them
empty and one that reaches past the end. -/
theorem showText_append_two_ending :
    let a : Line := { text := ['a', 'b'], tints := [
      { start := 0, stop := 2, on := ['1'], off := ['.'] },
      { start := 1, stop := 2, on := ['2'], off := ['.'] }] }
    let b : Line := { text := ['c'], tints := [
      { start := 0, stop := 0, on := ['3'], off := ['.'] },
      { start := 0, stop := 5, on := ['4'], off := ['/'] }] }
    (∀ t ∈ a.tints, 0 ≤ t.start ∧ t.stop ≤ (a.text.length : Int)) ∧
      (∀ t ∈ b.tints, 0 ≤ t.start) ∧
      (a ++ b).showText true = ['1', 'a', '2', 'b', '.'] ++ ['4', 'c', '/'] := by
  intro a b
  have ha : ∀ t ∈ a.tints, 0 ≤ t.start ∧ t.stop ≤ (a.text.length : Int) := by decide
  have hb : ∀ t ∈ b.tints, 0 ≤ t.start := by decide
  refine ⟨ha, hb, ?_⟩
  rw [showText_append ha hb]
  decide

end Line

end Marginalia
