import Marginalia.Proofs.Collision
import Marginalia.Source.Excerpt

/-!
# Lines that are annotated step by step

A line begins as a bare text; decorations are then hung on it one after the other, and each is
either taken or refused. `Line.attemptAll` is such a history. Whatever it holds, every span on the
line is proper and the underlines stand apart (`Line.Sound.attemptAll`).

Results:
* `Line.locate_eq_ok_iff`: a place is found on a line iff it denotes a proper span.
* `Line.attempt_cases`: all that one decoration can do to a line.
* `Line.underlines_attempt_iff`: a decoration adds an underline iff it is one that denotes a proper
  span and collides with none of those already there.
-/

namespace Marginalia

/-- The span that a place denotes on a text of some length: an end that is left open is that of the
text, and steps do not matter as long as there are some. -/
inductive Place.Denotes (length : Nat) : Place → Span → Prop
  | whole : Denotes length .whole ⟨0, length⟩
  | within (start stop : Option Int) :
    Denotes length (.within start stop) ⟨start.getD 0, stop.getD length⟩
  | stepping (start stop : Int) {step : Int} (hstep : step ≠ 0) :
    Denotes length (.stepping (some start) (some stop) (some step)) ⟨start, stop⟩

namespace Line

/-- A line as it is made: a text with its number fields, and no decorations. -/
def bare (text : Text) (numbered : Bool := false) (number : Int := 1) : Line :=
  { text := text, numbered := numbered, number := number }

/-- The line after a decoration was handed to it. One that is refused leaves it as it was. -/
def attempt (l : Line) (a : Annotation) : Line :=
  match l.annotate a with
  | .ok l' => l'
  | .error _ => l

/-- The line after decorations were handed to it one after the other. -/
def attemptAll (l : Line) (as : List Annotation) : Line := as.foldl attempt l

/-! ## Where a place is -/

theorem accept_eq_ok_iff {l : Line} {s s' : Span} :
    l.accept s = .ok s' ↔ s' = s ∧ s.Proper := by
  unfold accept Span.Proper
  by_cases h : s.start < 0 ∨ s.stop < s.start
  · rw [if_pos h]
    simp only [Fault.refuse, reduceCtorEq, false_iff, not_and]
    omega
  · rw [if_neg h, Except.ok.injEq]
    exact ⟨fun e => ⟨e.symm, by omega⟩, fun e => e.1.symm⟩

theorem locate_eq_ok_iff {l : Line} {p : Place} {s : Span} :
    l.locate p = .ok s ↔ p.Denotes l.text.length s ∧ s.Proper := by
  constructor
  · intro h
    match p with
    | .whole =>
      cases h
      exact ⟨.whole, Int.le_refl _, Int.natCast_nonneg _⟩
    | .within start stop =>
      obtain ⟨rfl, hs⟩ := accept_eq_ok_iff.mp h
      exact ⟨.within start stop, hs⟩
    | .stepping (some start) (some stop) (some step) =>
      rw [locate] at h
      split at h
      · cases h
      · obtain ⟨rfl, hs⟩ := accept_eq_ok_iff.mp h
        exact ⟨.stepping start stop ‹_›, hs⟩
    | .stepping none _ _ | .stepping (some _) none _ | .stepping (some _) (some _) none => cases h
    | .stray _ => cases h
  · rintro ⟨hp, hs⟩
    cases hp with
    | whole => rfl
    | within start stop => exact accept_eq_ok_iff.mpr ⟨rfl, hs⟩
    | stepping start stop hstep =>
      rw [locate, if_neg hstep]
      exact accept_eq_ok_iff.mpr ⟨rfl, hs⟩

/-- The part of a line that a mark is to cover is found on any line. -/
theorem locate_reach (l : Line) {column : Int} (hcolumn : 0 ≤ column) (width : Int) (l' : Line) :
    l'.locate (.within (some (l.reach column width).start) (some (l.reach column width).stop)) =
      .ok (l.reach column width) :=
  locate_eq_ok_iff.mpr ⟨.within _ _, hcolumn, by simp only [reach]; omega⟩

/-! ## One decoration -/

theorem annotate_tint (l : Line) (p : Place) (on off : Text) :
    l.annotate (.tint p on off) = (l.locate p).map fun s =>
      { l with tints := l.tints ++ [{ s with on := on, off := off }] } := by
  rw [annotate]
  cases l.locate p <;> rfl

theorem annotate_underline_of_free {l : Line} {p : Place} {s : Span} (hs : l.locate p = .ok s)
    (hfree : ∀ u ∈ l.underlines, ¬ s.Collides u.toSpan) (pen : Pen) (hint : Text) :
    l.annotate (.underline p pen hint) =
      .ok { l with underlines := l.underlines ++ [pen.beneath s hint] } := by
  have hany : (l.underlines.any fun u => s.Collides u.toSpan) = false := by
    simpa [List.any_eq_false] using hfree
  rw [annotate, hs]
  simp only [bind, Except.bind, hany]
  rfl

theorem annotate_underline_of_collides {l : Line} {p : Place} {s : Span} (hs : l.locate p = .ok s)
    (hhit : ∃ u ∈ l.underlines, s.Collides u.toSpan) (pen : Pen) (hint : Text) :
    l.annotate (.underline p pen hint) = Fault.refuse (.overlap s.start s.stop) := by
  have hany : (l.underlines.any fun u => s.Collides u.toSpan) = true := by
    simpa [List.any_eq_true] using hhit
  rw [annotate, hs]
  simp only [bind, Except.bind, hany]
  rfl

theorem annotate_underline_of_error {l : Line} {p : Place} {e : Fault} (hs : l.locate p = .error e)
    (pen : Pen) (hint : Text) : l.annotate (.underline p pen hint) = .error e := by
  rw [annotate, hs]
  rfl

end Line

/-- A decoration adds an underline to a line: it is one, its place denotes a proper span, and that
collides with none of the underlines that the line has. -/
inductive Annotation.Adds (l : Line) : Annotation → Underline → Prop
  | intro {p : Place} {s : Span} (pen : Pen) (hint : Text) (hplace : p.Denotes l.text.length s)
    (hproper : s.Proper) (hfree : ∀ u ∈ l.underlines, ¬ s.Collides u.toSpan) :
    Adds l (.underline p pen hint) (pen.beneath s hint)

namespace Line

theorem attempt_of_adds {l : Line} {a : Annotation} {u : Underline} (h : a.Adds l u) :
    l.attempt a = { l with underlines := l.underlines ++ [u] } := by
  obtain ⟨pen, hint, hplace, hproper, hfree⟩ := h
  rw [attempt, annotate_underline_of_free (locate_eq_ok_iff.mpr ⟨hplace, hproper⟩) hfree]

/-- **All that a decoration can do to a line**: nothing, one tint more, or one underline more that
it adds. -/
theorem attempt_cases (l : Line) (a : Annotation) :
    l.attempt a = l ∨
      (∃ t : Tint, t.Proper ∧ l.attempt a = { l with tints := l.tints ++ [t] }) ∨
      ∃ u, a.Adds l u ∧ l.attempt a = { l with underlines := l.underlines ++ [u] } := by
  cases a with
  | tint p on off =>
    rw [attempt, annotate_tint]
    cases hs : l.locate p with
    | error e => exact Or.inl rfl
    | ok s =>
      exact Or.inr (Or.inl ⟨{ s with on := on, off := off }, (locate_eq_ok_iff.mp hs).2, rfl⟩)
  | underline p pen hint =>
    cases hs : l.locate p with
    | error e =>
      rw [attempt, annotate_underline_of_error hs]
      exact Or.inl rfl
    | ok s =>
      by_cases hhit : ∃ u ∈ l.underlines, s.Collides u.toSpan
      · rw [attempt, annotate_underline_of_collides hs hhit]
        exact Or.inl rfl
      · have hs' := locate_eq_ok_iff.mp hs
        have hadds : Annotation.Adds l (.underline p pen hint) (pen.beneath s hint) :=
          .intro pen hint hs'.1 hs'.2 fun u hu hc => hhit ⟨u, hu, hc⟩
        exact Or.inr (Or.inr ⟨_, hadds, attempt_of_adds hadds⟩)

@[simp] theorem text_attempt (l : Line) (a : Annotation) : (l.attempt a).text = l.text := by
  obtain h | ⟨t, -, h⟩ | ⟨u, -, h⟩ := l.attempt_cases a <;> rw [h]

/-- **A decoration adds an underline iff it is a proper one that collides with none.** -/
theorem underlines_attempt_iff {l : Line} {a : Annotation} {u : Underline} :
    (l.attempt a).underlines = l.underlines ++ [u] ↔ a.Adds l u := by
  constructor
  · intro h
    obtain hl | ⟨t, -, hl⟩ | ⟨v, hv, hl⟩ := l.attempt_cases a
    · rw [hl] at h
      simp at h
    · rw [hl] at h
      simp at h
    · rw [hl] at h
      have huv : v = u := by simpa using h
      exact huv ▸ hv
  · intro h
    rw [attempt_of_adds h]

theorem underlines_attempt_of_not_adds {l : Line} {a : Annotation} (h : ∀ u, ¬ a.Adds l u) :
    (l.attempt a).underlines = l.underlines := by
  obtain hl | ⟨t, -, hl⟩ | ⟨u, hu, -⟩ := l.attempt_cases a
  · rw [hl]
  · rw [hl]
  · exact absurd hu (h u)

/-! ## What every history keeps -/

/-- Every span on the line is proper, and its underlines stand apart. -/
structure Sound (l : Line) : Prop where
  tints : ∀ t ∈ l.tints, t.Proper
  underlines : ∀ u ∈ l.underlines, u.Proper
  apart : Span.Apart Underline.toSpan l.underlines

theorem sound_bare (text : Text) (numbered : Bool) (number : Int) :
    (bare text numbered number).Sound where
  tints := by simp [bare]
  underlines := by simp [bare]
  apart := List.Pairwise.nil

theorem Sound.attempt {l : Line} (h : l.Sound) (a : Annotation) : (l.attempt a).Sound := by
  obtain hl | ⟨t, ht, hl⟩ | ⟨u, hu, hl⟩ := l.attempt_cases a
  · rw [hl]
    exact h
  · rw [hl]
    refine ⟨fun t' ht' => ?_, h.underlines, h.apart⟩
    rcases List.mem_append.mp ht' with ht' | ht'
    · exact h.tints t' ht'
    · rw [List.mem_singleton.mp ht']
      exact ht
  · obtain ⟨pen, hint, hplace, hproper, hfree⟩ := hu
    rw [hl]
    refine ⟨h.tints, fun v hv => ?_, Span.apart_append h.apart hfree⟩
    rcases List.mem_append.mp hv with hv | hv
    · exact h.underlines v hv
    · rw [List.mem_singleton.mp hv]
      exact hproper

/-- **Every history leaves the line sound.** -/
theorem Sound.attemptAll {l : Line} (h : l.Sound) (as : List Annotation) :
    (l.attemptAll as).Sound := by
  induction as generalizing l with
  | nil => exact h
  | cons a as ih => exact ih (h.attempt a)

@[simp] theorem text_attemptAll (l : Line) (as : List Annotation) :
    (l.attemptAll as).text = l.text := by
  induction as generalizing l with
  | nil => rfl
  | cons a as ih => exact (ih (l.attempt a)).trans (l.text_attempt a)

theorem attemptAll_append (l : Line) (as bs : List Annotation) :
    l.attemptAll (as ++ bs) = (l.attemptAll as).attemptAll bs := List.foldl_append

end Line

end Marginalia
