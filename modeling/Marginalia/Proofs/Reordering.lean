import Marginalia.Proofs.Annotating
import Marginalia.Proofs.Order
import Marginalia.Proofs.Traversal
import Marginalia.Session.Command

/-!
# Decorations in another order

Whether a line takes some decorations is decided one at a time, against those that it has taken
before. All of them are taken iff they are places on the line and their underlines stand apart
(`Line.foldlM_annotate_eq_ok_iff`), and neither depends on which of them came first. A line then
looks the same as long as the tints that start together came in the same order.

Results:
* `Line.foldlM_annotate_eq_ok_iff`: when a line takes decorations, and what it is then.
* `Line.Alike.view_eq`: a line looks as it does for its marks in the order of their starts.
* `Line.view_of_reorders`: decorations that are taken in one order are taken in another, and the
  line looks the same.
-/

namespace Marginalia

/-! ## What a decoration is on a text -/

namespace Annotation

/-- Where a decoration is to be. -/
def place : Annotation → Place
  | tint place _ _ | underline place _ _ => place

/-- The tint that a decoration is on a text, if it is one and has a place there. -/
def tint? (text : Text) : Annotation → Option Tint
  | tint place on off =>
    ((Line.bare text).locate place).toOption.map fun s => { s with on := on, off := off }
  | underline .. => none

/-- The underline that a decoration is on a text, if it is one and has a place there. -/
def underline? (text : Text) : Annotation → Option Underline
  | tint .. => none
  | underline place pen hint =>
    ((Line.bare text).locate place).toOption.map fun s => pen.beneath s hint

/-- The same decorations in another order, in which the tints that start together come as before. -/
structure Reorders (text : Text) (as bs : List Annotation) : Prop where
  perm : bs.Perm as
  tints : ∀ i : Int, (bs.filterMap (tint? text)).filter (fun t => t.start = i) =
    (as.filterMap (tint? text)).filter fun t => t.start = i

end Annotation

namespace Line

/-- The line with some marks more. -/
def hang (l : Line) (tints : List Tint) (underlines : List Underline) : Line :=
  { l with tints := l.tints ++ tints, underlines := l.underlines ++ underlines }

@[simp] theorem text_hang (l : Line) (tints : List Tint) (underlines : List Underline) :
    (l.hang tints underlines).text = l.text := rfl

@[simp] theorem tints_hang (l : Line) (tints : List Tint) (underlines : List Underline) :
    (l.hang tints underlines).tints = l.tints ++ tints := rfl

@[simp] theorem underlines_hang (l : Line) (tints : List Tint) (underlines : List Underline) :
    (l.hang tints underlines).underlines = l.underlines ++ underlines := rfl

@[simp] theorem hang_nil (l : Line) : l.hang [] [] = l := by
  rw [hang, List.append_nil, List.append_nil]

theorem hang_hang (l : Line) (tints tints' : List Tint) (underlines underlines' : List Underline) :
    (l.hang tints underlines).hang tints' underlines' =
      l.hang (tints ++ tints') (underlines ++ underlines') := by
  simp only [hang, List.append_assoc]

/-- Where a place is depends on the text alone. -/
theorem locate_bare (l : Line) (p : Place) : (bare l.text).locate p = l.locate p := by
  cases p <;> rfl

theorem tint?_tint (l : Line) (p : Place) (on off : Text) :
    Annotation.tint? l.text (.tint p on off) =
      (l.locate p).toOption.map fun s => { s with on := on, off := off } := by
  rw [← locate_bare, Annotation.tint?]

theorem underline?_underline (l : Line) (p : Place) (pen : Pen) (hint : Text) :
    Annotation.underline? l.text (.underline p pen hint) =
      (l.locate p).toOption.map fun s => pen.beneath s hint := by
  rw [← locate_bare, Annotation.underline?]

/-! ## One decoration -/

variable {l l' : Line} {a : Annotation} {as bs : List Annotation} {text : Text}

/-- **A line takes a decoration** iff that has a place on it and, being an underline, collides with
none of those that it has. The line then has the mark that the decoration is. -/
theorem annotate_eq_ok_iff :
    l.annotate a = .ok l' ↔
      (∃ s, l.locate a.place = .ok s) ∧
      (∀ u ∈ a.underline? l.text, ∀ v ∈ l.underlines, ¬ u.Collides v.toSpan) ∧
      l' = l.hang (a.tint? l.text).toList (a.underline? l.text).toList := by
  cases a with
  | tint place on off =>
    rw [annotate_tint, tint?_tint, Annotation.place, Annotation.underline?]
    cases l.locate place with
    | error e => simp [Except.map]
    | ok s => simp [Except.map, Except.toOption, hang, eq_comm]
  | underline place pen hint =>
    rw [underline?_underline, Annotation.place, Annotation.tint?]
    cases hs : l.locate place with
    | error e => simp [annotate_underline_of_error hs]
    | ok s =>
      have hmark : ((Except.ok s : Except Fault Span).toOption.map fun s => pen.beneath s hint) =
        some (pen.beneath s hint) := rfl
      rw [hmark]
      by_cases hhit : ∃ u ∈ l.underlines, s.Collides u.toSpan
      · obtain ⟨u, hu, hc⟩ := hhit
        rw [annotate_underline_of_collides hs ⟨u, hu, hc⟩]
        simp only [Fault.refuse, reduceCtorEq, false_iff]
        exact fun h => h.2.1 _ rfl u hu hc
      · have hfree : ∀ u ∈ l.underlines, ¬ s.Collides u.toSpan :=
          fun u hu hc => hhit ⟨u, hu, hc⟩
        rw [annotate_underline_of_free hs hfree, Except.ok.injEq]
        constructor
        · rintro rfl
          refine ⟨⟨s, rfl⟩, ?_, by simp [hang]⟩
          rintro u ⟨⟩
          exact hfree
        · rintro ⟨-, -, rfl⟩
          simp [hang]

/-! ## All of them -/

/-- Some decorations can all be hung on a line: they have a place on it, and their underlines stand
apart from each other and from those that it has. -/
structure Takes (l : Line) (as : List Annotation) : Prop where
  placed : ∀ a ∈ as, ∃ s, l.locate a.place = .ok s
  apart : Span.Apart Underline.toSpan (l.underlines ++ as.filterMap (·.underline? l.text))

/-- Which of the decorations comes first makes no difference to a line that takes them. -/
theorem Takes.perm (h : l.Takes as) (hperm : bs.Perm as) : l.Takes bs where
  placed a ha := h.placed a (hperm.mem_iff.mp ha)
  apart := by
    have hsymm {u v : Underline} (huv : ¬ u.Collides v.toSpan) : ¬ v.Collides u.toSpan :=
      fun hvu => huv (Span.collides_comm.mp hvu)
    exact (((hperm.filterMap _).append_left l.underlines).pairwise_iff hsymm).mpr h.apart

theorem Takes.free (h : l.Takes (a :: as)) :
    ∀ u ∈ a.underline? l.text, ∀ v ∈ l.underlines, ¬ u.Collides v.toSpan := by
  intro u hu v hv hc
  have hmem : u ∈ (a :: as).filterMap (·.underline? l.text) :=
    List.mem_filterMap.mpr ⟨a, List.mem_cons_self, hu⟩
  exact (List.pairwise_append.mp h.apart).2.2 v hv u hmem (Span.collides_comm.mp hc)

/-- The marks of several decorations are that of the first one, and then those of the others. -/
theorem filterMap_cons_toList {β : Type} (f : Annotation → Option β) (a : Annotation)
    (as : List Annotation) : (a :: as).filterMap f = (f a).toList ++ as.filterMap f := by
  rw [List.filterMap_eq_flatMap_toList, List.flatMap_cons, List.filterMap_eq_flatMap_toList]

/-- A line takes several decorations iff it has a place for the first one, and with that takes the
others. -/
theorem takes_cons :
    l.Takes (a :: as) ↔ (∃ s, l.locate a.place = .ok s) ∧
      (l.hang (a.tint? l.text).toList (a.underline? l.text).toList).Takes as := by
  have hunderlines : l.underlines ++ (a :: as).filterMap (·.underline? l.text) =
      l.underlines ++ (a.underline? l.text).toList ++ as.filterMap (·.underline? l.text) := by
    rw [filterMap_cons_toList, List.append_assoc]
  constructor
  · intro h
    refine ⟨h.placed a List.mem_cons_self, fun b hb => ?_, hunderlines ▸ h.apart⟩
    rw [← locate_bare]
    exact h.placed b (List.mem_cons_of_mem a hb)
  · rintro ⟨ha, h⟩
    refine ⟨List.forall_mem_cons.mpr ⟨ha, fun b hb => ?_⟩, hunderlines ▸ h.apart⟩
    rw [← locate_bare]
    exact h.placed b hb

/-- **When a line takes decorations one after the other, and what it is then**. -/
theorem foldlM_annotate_eq_ok_iff (h : Span.Apart Underline.toSpan l.underlines) :
    as.foldlM annotate l = .ok l' ↔
      l.Takes as ∧
        l' = l.hang (as.filterMap (·.tint? l.text)) (as.filterMap (·.underline? l.text)) := by
  induction as generalizing l with
  | nil =>
    have htakes : l.Takes [] := ⟨by simp, by simpa using h⟩
    simp only [List.foldlM_nil, pure, Except.pure, Except.ok.injEq, List.filterMap_nil, hang_nil,
      htakes, true_and, eq_comm]
  | cons a as ih =>
    have hfirst (hfree : ∀ u ∈ a.underline? l.text, ∀ v ∈ l.underlines, ¬ u.Collides v.toSpan) :
        Span.Apart Underline.toSpan (l.underlines ++ (a.underline? l.text).toList) := by
      cases hu : a.underline? l.text with
      | none => simpa using h
      | some u => exact Span.apart_append h (hfree u hu)
    rw [List.foldlM_cons, filterMap_cons_toList, filterMap_cons_toList, ← hang_hang]
    constructor
    · intro hl
      obtain ⟨m, ha, has⟩ := exists_of_bind_eq_ok hl
      obtain ⟨hplaced, hfree, rfl⟩ := annotate_eq_ok_iff.mp ha
      obtain ⟨htakes, hl'⟩ := (ih (hfirst hfree)).mp has
      exact ⟨takes_cons.mpr ⟨hplaced, htakes⟩, hl'⟩
    · rintro ⟨htakes, hl'⟩
      obtain ⟨hplaced, hrest⟩ := takes_cons.mp htakes
      rw [annotate_eq_ok_iff.mpr ⟨hplaced, htakes.free, rfl⟩]
      exact (ih (hfirst htakes.free)).mpr ⟨hrest, hl'⟩

/-! ## What a line looks like -/

/-- Two lines that differ at most in how their marks came: in the order of their starts these are
the same. -/
structure Alike (l l' : Line) : Prop where
  text : l.text = l'.text
  numbered : l.numbered = l'.numbered
  number : l.number = l'.number
  tints : inOrder (·.start) l.tints = inOrder (·.start) l'.tints
  underlines : inOrder (·.start) l.underlines = inOrder (·.start) l'.underlines

namespace Alike

theorem underlineRow_eq (h : l.Alike l') : l.underlineRow = l'.underlineRow := by
  rw [underlineRow, underlineRow, h.underlines]

theorem hintRows_eq (h : l.Alike l') : l.hintRows = l'.hintRows := by
  rw [hintRows, hintRows, h.underlines]

theorem showText_eq (h : l.Alike l') (colored : Bool) :
    l.showText colored = l'.showText colored := by
  rw [showText, showText, textRow, textRow, TextRow.visible, TextRow.visible, h.text, h.tints]

theorem picture_eq (h : l.Alike l') (colored : Bool) : l.picture colored = l'.picture colored := by
  have hgutter : l.gutter = l'.gutter := by
    rw [gutter, gutter, h.numbered, h.number]
  have hbeneath : l.beneath colored = l'.beneath colored := by
    rw [beneath, beneath, showUnderline, showUnderline, showHints, showHints, h.underlineRow_eq,
      h.hintRows_eq]
  rw [picture, picture, hgutter, hbeneath, h.showText_eq colored]

/-- **A line looks as it does for its marks in the order of their starts**. -/
theorem view_eq (h : l.Alike l') (colored : Bool) : l.view colored = l'.view colored := by
  rw [view, view, showUnderline, showUnderline, showHints, showHints, h.showText_eq colored,
    h.picture_eq colored, h.underlineRow_eq, h.hintRows_eq]

/-- So it does for what is too much about it. -/
theorem excess?_eq (h : l.Alike l') (colored : Bool) : l.excess? colored = l'.excess? colored := by
  rw [excess?, excess?, rowExcess?, rowExcess?, h.underlineRow_eq, h.hintRows_eq, h.numbered,
    h.number]

end Alike

/-- **Decorations that a line takes one after the other it takes in any other order** that leaves
the tints that start together as they come, and the line looks the same. -/
theorem view_of_reorders (text : Text) (numbered : Bool) (number : Int) {as bs : List Annotation}
    {l : Line} (has : as.foldlM annotate (bare text numbered number) = .ok l)
    (hbs : Annotation.Reorders text as bs) :
    ∃ l', bs.foldlM annotate (bare text numbered number) = .ok l' ∧
      ∀ colored, l'.view colored = l.view colored ∧ l'.excess? colored = l.excess? colored := by
  have hbare : Span.Apart Underline.toSpan (bare text numbered number).underlines :=
    (sound_bare text numbered number).apart
  obtain ⟨htakes, rfl⟩ := (foldlM_annotate_eq_ok_iff hbare).mp has
  refine ⟨_, (foldlM_annotate_eq_ok_iff hbare).mpr ⟨htakes.perm hbs.perm, rfl⟩, fun colored => ?_⟩
  have halike : ((bare text numbered number).hang (bs.filterMap (·.tint? text))
      (bs.filterMap (·.underline? text))).Alike ((bare text numbered number).hang
        (as.filterMap (·.tint? text)) (as.filterMap (·.underline? text))) :=
    { text := rfl
      numbered := rfl
      number := rfl
      tints := inOrder_eq_of_filter_eq hbs.tints
      underlines := inOrder_eq_of_perm (hbs.perm.filterMap _)
        (Span.starts_nodup_of_apart htakes.apart) }
  exact ⟨halike.view_eq colored, halike.excess?_eq colored⟩

/-- A hint in front of a mark and one tint in front of another, or the other way round. -/
theorem view_of_reorders_reversed :
    ∃ as bs : List Annotation, ∃ l l' : Line, as.length = 4 ∧ bs = as.reverse ∧
      as.foldlM annotate (bare "abcd".toList) = .ok l ∧
      bs.foldlM annotate (bare "abcd".toList) = .ok l' ∧ l' ≠ l ∧
      ∀ colored, l'.view colored = l.view colored := by
  let as : List Annotation :=
    [.tint (.within (some 0) (some 3)) ['<'] ['>'], .tint (.within (some 1) none) ['['] [']'],
      .underline (.within none (some 2)) {} ['?'],
      .underline (.within (some 1) (some 4)) Severity.warning.pen []]
  have htints : as.filterMap (·.tint? "abcd".toList) =
      [{ start := 0, stop := 3, on := ['<'], off := ['>'] },
        { start := 1, stop := 4, on := ['['], off := [']'] }] := rfl
  have hreorders : Annotation.Reorders "abcd".toList as as.reverse := by
    refine ⟨List.reverse_perm as, fun i => ?_⟩
    rw [List.filterMap_reverse, htints]
    by_cases hi : (0 : Int) = i
    · subst hi
      rfl
    · simp [List.filter_cons, hi]
  obtain ⟨l', hl', hview⟩ := view_of_reorders "abcd".toList false 1 rfl hreorders
  refine ⟨as, as.reverse, _, l', rfl, rfl, rfl, hl', ?_, fun colored => (hview colored).1⟩
  cases hl'
  decide

end Line

end Marginalia
