import Marginalia.Line.Picture
import Marginalia.Proofs.Annotating
import Marginalia.Proofs.Order
import Marginalia.Proofs.Terminal

/-!
# The colours of the text row

The text row is scanned with a list of open tints and a list of those still to come. At every
position `i` the scan keeps this invariant: the open tints began before `i` and end at `i` or later,
those to come begin at `i` or later and are in order of their starts, and the terminal is in the
styles of the open ones. So each character is shown in the styles of exactly the tints over it
(`TextRow.play_scan`), whether or not some of them were switched off together and begun again.

Results:
* `Line.play_textRow`: what a terminal shows of the text row of a line on which no tint begins
  before the text.
* `Line.play_textRow_attemptAll`: the same of every line that was annotated step by step.
* `Line.showText_plain`: without colour the row is the text.
-/

namespace Marginalia

/-- The codes of the tints over a cell, in the order in which the tints are given. -/
def Tint.codesOver (tints : List Tint) (c : Int) : List Text :=
  (tints.filter fun t => t.Contains c).map (·.on)

/-- The codes of the tints over a cell of a line: by their starts, and those of tints that start
together in the order in which the tints came. -/
def Line.codesOver (l : Line) (c : Int) : List Text :=
  Tint.codesOver (l.tints.mergeSort fun s t => s.start ≤ t.start) c

namespace TextRow

/-! ## Codes at one position -/

theorem eraseReps_ne_nil (code : Text) (codes : List Text) : (code :: codes).eraseReps ≠ [] := by
  have loop_ne_nil : ∀ (codes : List Text) (code : Text) (acc : List Text),
      List.eraseRepsBy.loop (· == ·) code codes acc ≠ [] := by
    intro codes
    induction codes with
    | nil => simp [List.eraseRepsBy.loop]
    | cons code' codes ih =>
      intro code acc
      rw [List.eraseRepsBy.loop]
      split
      · exact ih code acc
      · exact ih code' (code :: acc)
  exact loop_ne_nil codes code []

theorem play_off (codes : List Text) (hne : codes ≠ []) (t : Terminal) :
    t.play (Row.tokens (codes.map .off)) = { t with active := [] } := by
  induction codes generalizing t with
  | nil => exact absurd rfl hne
  | cons code codes ih =>
    cases codes with
    | nil => rfl
    | cons code' codes => exact ih (by simp) { t with active := [] }

/-- Ending some tints leaves no style on. -/
theorem play_closing {tints : List Tint} (hne : tints ≠ []) (t : Terminal) :
    t.play (Row.tokens (closing tints)) = { t with active := [] } := by
  obtain ⟨tint, tints, rfl⟩ := List.exists_cons_of_ne_nil hne
  exact play_off _ (eraseReps_ne_nil _ _) t

theorem play_opening (tints : List Tint) (t : Terminal) :
    t.play (Row.tokens (opening tints)) =
      { t with active := t.active ++ tints.map (·.on) } := by
  induction tints generalizing t with
  | nil => simp [opening, Row.tokens, Terminal.play]
  | cons tint tints ih =>
    show Terminal.play (t.feed (.on tint.on)) (Row.tokens (opening tints)) = _
    rw [ih]
    simp [Terminal.feed]

/-! ## Tints that begin at one position -/

section Coming

variable {coming : List Tint} {i : Int}

/-- Of tints in order of their starts, those that begin here are the ones over this cell. -/
theorem begun_eq_filter (hcoming : ∀ t ∈ coming, i ≤ t.start ∧ t.start < t.stop)
    (hsorted : coming.Pairwise fun s t => s.start ≤ t.start) :
    coming.takeWhile (fun t => t.start = i) = coming.filter fun t => t.Contains i := by
  induction coming with
  | nil => rfl
  | cons t rest ih =>
    have ht := hcoming t List.mem_cons_self
    have hrest : ∀ s ∈ rest, i ≤ s.start ∧ s.start < s.stop :=
      fun s hs => hcoming s (List.mem_cons_of_mem t hs)
    rw [List.pairwise_cons] at hsorted
    by_cases h : t.start = i
    · have hover : t.Contains i := ⟨by omega, by omega⟩
      rw [List.takeWhile_cons_of_pos (by simpa using h), ih hrest hsorted.2,
        List.filter_cons_of_pos (by simpa using hover)]
    · rw [List.takeWhile_cons_of_neg (by simpa using h)]
      refine (List.filter_eq_nil_iff.mpr fun s hs => ?_).symm
      have hle : t.start ≤ s.start := by
        rcases List.mem_cons.mp hs with rfl | hs
        · exact Int.le_refl _
        · exact hsorted.1 s hs
      have hover : ¬ s.Contains i := fun hc => by
        have := hc.1
        omega
      simpa using hover

/-- What is still to come behind the tints that begin here begins further on. -/
theorem lt_start_of_mem_dropWhile (hcoming : ∀ t ∈ coming, i ≤ t.start)
    (hsorted : coming.Pairwise fun s t => s.start ≤ t.start) :
    ∀ t ∈ coming.dropWhile (fun t => t.start = i), i < t.start := by
  induction coming with
  | nil => simp
  | cons t rest ih =>
    rw [List.pairwise_cons] at hsorted
    by_cases h : t.start = i
    · rw [List.dropWhile_cons_of_pos (by simpa using h)]
      exact ih (fun s hs => hcoming s (List.mem_cons_of_mem t hs)) hsorted.2
    · rw [List.dropWhile_cons_of_neg (by simpa using h)]
      have ht := hcoming t List.mem_cons_self
      intro s hs
      rcases List.mem_cons.mp hs with rfl | hs
      · omega
      · have := hsorted.1 s hs
        omega

end Coming

/-- Of the open tints those go on that do not stop here, which are the ones over this cell. -/
theorem kept_eq_filter {opened : List Tint} {i : Int}
    (hopened : ∀ t ∈ opened, t.start < i ∧ i ≤ t.stop) :
    opened.filter (fun t => t.stop ≠ i) = opened.filter fun t => t.Contains i := by
  refine List.filter_congr fun t ht => ?_
  have := hopened t ht
  rw [Bool.eq_iff_iff, decide_eq_true_iff, decide_eq_true_iff]
  unfold Span.Contains
  omega

theorem codesOver_append (tints others : List Tint) (c : Int) :
    Tint.codesOver (tints ++ others) c = Tint.codesOver tints c ++ Tint.codesOver others c := by
  simp [Tint.codesOver]

/-- A tint that stops here is over no cell from here on. -/
theorem codesOver_kept {opened : List Tint} {i c : Int} (hic : i ≤ c) :
    Tint.codesOver (opened.filter fun t => t.stop ≠ i) c = Tint.codesOver opened c := by
  unfold Tint.codesOver
  rw [List.filter_filter]
  congr 1
  refine List.filter_congr fun t _ => ?_
  rw [Bool.eq_iff_iff, Bool.and_eq_true, decide_eq_true_iff, decide_eq_true_iff]
  unfold Span.Contains
  omega

/-! ## The scan -/

theorem scan_cons (c : Char) (rest : Text) (i : Int) (opened coming : List Tint) :
    let ended := opened.filter (·.stop = i)
    let kept := opened.filter (·.stop ≠ i)
    let begun := coming.takeWhile (·.start = i)
    scan (c :: rest) i opened coming =
      (closing ended ++ (if ended.isEmpty then [] else opening kept) ++ opening begun) ++
        .glyphs [c] :: scan rest (i + 1) (kept ++ begun) (coming.dropWhile (·.start = i)) := rfl

/-- The styles after the codes at one position are those of the tints over it. -/
theorem play_codes {opened : List Tint} {i : Int} (begun : List Tint) {t : Terminal}
    (hactive : t.active = opened.map (·.on)) :
    let ended := opened.filter (·.stop = i)
    let kept := opened.filter (·.stop ≠ i)
    t.play (Row.tokens (closing ended ++ (if ended.isEmpty then [] else opening kept) ++
      opening begun)) = { t with active := (kept ++ begun).map (·.on) } := by
  intro ended kept
  rw [Row.tokens_append, Row.tokens_append, Terminal.play_append, Terminal.play_append,
    play_opening, List.map_append]
  by_cases h : ended = []
  · have hkept : kept = opened := by
      refine List.filter_eq_self.mpr fun s hs => ?_
      have := List.filter_eq_nil_iff.mp h s hs
      simpa using this
    rw [h, hkept, ← hactive]
    rfl
  · rw [play_closing h, if_neg (by simpa using h), play_opening]
    simp

/-- **The scan shows each character in the styles of the tints over it**, and leaves no style on. -/
theorem play_scan : ∀ (text : Text) {i : Nat} {opened coming : List Tint} {t : Terminal},
    (∀ s ∈ opened, s.start < i ∧ i ≤ s.stop) →
    (∀ s ∈ coming, i ≤ s.start ∧ s.start < s.stop) →
    (coming.Pairwise fun s s' => s.start ≤ s'.start) →
    t.active = opened.map (·.on) →
    t.play (Row.tokens (scan text i opened coming)) =
      { shown := t.shown ++
          (text.zipIdx i).map fun p => ([p.1], Tint.codesOver (opened ++ coming) p.2)
        active := [] }
  | [], i, opened, coming, t, _, _, _, hactive => by
    rw [scan, List.zipIdx_nil, List.map_nil, List.append_nil]
    by_cases h : opened = []
    · subst h
      cases t
      simp only [List.map_nil] at hactive
      subst hactive
      rfl
    · exact play_closing h t
  | c :: rest, i, opened, coming, t, hopened, hcoming, hsorted, hactive => by
    have hbegun := begun_eq_filter hcoming hsorted
    have hkept := kept_eq_filter hopened
    have hlater := lt_start_of_mem_dropWhile (fun s hs => (hcoming s hs).1) hsorted
    -- What is open at the next position is what is over the cell of this one.
    have hover : Tint.codesOver (opened ++ coming) i =
        ((opened.filter fun s => s.stop ≠ (i : Int)) ++
          coming.takeWhile fun s => s.start = (i : Int)).map (·.on) := by
      rw [hkept, hbegun, codesOver_append, List.map_append]
      rfl
    have hnext : ∀ s ∈ (opened.filter fun s => s.stop ≠ (i : Int)) ++
        coming.takeWhile (fun s => s.start = (i : Int)),
        s.start < ((i + 1 : Nat) : Int) ∧ ((i + 1 : Nat) : Int) ≤ s.stop := by
      rw [hkept, hbegun]
      intro s hs
      have hc : s.Contains i := by
        rcases List.mem_append.mp hs with hs | hs <;> simpa using (List.mem_filter.mp hs).2
      have := hc.1
      have := hc.2
      omega
    rw [scan_cons, Row.tokens_append, Terminal.play_append, play_codes _ hactive, Row.tokens_cons]
    show Terminal.play _ (Row.tokens (scan rest ((i : Int) + 1) _ _)) = _
    rw [show ((i : Int) + 1) = ((i + 1 : Nat) : Int) by omega]
    rw [play_scan rest hnext (fun s hs => ⟨by have := hlater s hs; omega,
      (hcoming s ((List.dropWhile_sublist _).subset hs)).2⟩)
      (hsorted.sublist (List.dropWhile_sublist _)) rfl]
    simp only [List.zipIdx_cons, List.map_cons, Terminal.feed]
    rw [hover, List.append_assoc]
    congr 2
    rw [List.singleton_append]
    congr 1
    refine List.map_congr_left fun p hp => ?_
    have hle := List.le_snd_of_mem_zipIdx hp
    rw [List.append_assoc, List.takeWhile_append_dropWhile, codesOver_append, codesOver_append,
      codesOver_kept (by omega)]

/-! ## The cells of the row -/

theorem cells_map_off (codes : List Text) : Row.cells (codes.map .off) = [] := by
  induction codes with
  | nil => rfl
  | cons code codes ih => simpa using ih

theorem cells_closing (tints : List Tint) : Row.cells (closing tints) = [] := cells_map_off _

theorem cells_opening (tints : List Tint) : Row.cells (opening tints) = [] := by
  unfold opening
  induction tints with
  | nil => rfl
  | cons tint tints ih => simpa using ih

/-- There are no gaps in a text row. -/
theorem hasSeat_scan : ∀ (text : Text) (i : Int) (opened coming : List Tint),
    ∀ p ∈ scan text i opened coming, p.HasSeat
  | [], _, opened, _, p, hp => by
    obtain ⟨code, -, rfl⟩ := List.mem_map.mp hp
    trivial
  | c :: rest, i, opened, coming, p, hp => by
    have hcodes : ∀ tints, ∀ q ∈ opening tints, q.HasSeat := by
      intro tints q hq
      obtain ⟨t, -, rfl⟩ := List.mem_map.mp hq
      trivial
    rw [scan] at hp
    simp only [List.mem_append, List.mem_cons] at hp
    rcases hp with ((hp | hp) | hp) | rfl | hp
    · obtain ⟨code, -, rfl⟩ := List.mem_map.mp hp
      trivial
    · split at hp
      · cases hp
      · exact hcodes _ p hp
    · exact hcodes _ p hp
    · trivial
    · exact hasSeat_scan rest _ _ _ p hp

/-- There is a cell for each character, whatever codes stand in between. -/
theorem cells_scan : ∀ (text : Text) (i : Int) (opened coming : List Tint),
    Row.cells (scan text i opened coming) = text.map fun c => [c]
  | [], _, opened, _ => cells_closing opened
  | c :: rest, i, opened, coming => by
    rw [scan]
    simp only [Row.cells_append, Row.cells_cons, cells_closing, cells_opening, Piece.cells_glyphs,
      cells_scan rest, List.map_cons]
    split <;> simp [cells_opening]

end TextRow

namespace Line

/-- **Without colour the text row is the text.** -/
theorem showText_plain (l : Line) : l.showText false = l.text := by
  rw [showText, textRow, Row.emit_false (TextRow.hasSeat_scan _ _ _ _), TextRow.cells_scan,
    ← List.flatMap_def, List.flatMap_singleton']

/-- A text without tints is shown as it is, in colour too. -/
theorem showText_untinted {l : Line} (h : l.tints = []) (colored : Bool) :
    l.showText colored = l.text := by
  have hscan : ∀ (t : Text) (i : Int), (TextRow.scan t i [] []).emit colored = t := by
    intro t
    induction t with
    | nil => exact fun _ => rfl
    | cons c rest ih => exact fun i => congrArg (c :: ·) (ih (i + 1))
  rw [showText, textRow, h]
  exact hscan l.text 0

/-- **Each character is shown in the styles of the tints over it.** -/
theorem play_textRow {l : Line} (h : ∀ t ∈ l.tints, 0 ≤ t.start) :
    Terminal.play {} l.textRow.tokens =
      { shown := l.text.zipIdx.map fun p => ([p.1], l.codesOver p.2), active := [] } := by
  have hvisible : ∀ t ∈ TextRow.visible l.tints l.text.length,
      ((0 : Nat) : Int) ≤ t.start ∧ t.start < t.stop := by
    intro t ht
    obtain ⟨hmem, hshow⟩ := List.mem_filter.mp ht
    simp only [decide_eq_true_eq] at hshow
    exact ⟨h t ((mem_inOrder _).mp hmem), hshow.1⟩
  have hsorted : (TextRow.visible l.tints l.text.length).Pairwise
      fun s t => s.start ≤ t.start := (inOrder_sorted _ l.tints).filter _
  have hplay := @TextRow.play_scan l.text 0 [] _ {} (by simp) hvisible hsorted rfl
  rw [List.nil_append, List.nil_append] at hplay
  refine hplay.trans ?_
  congr 1
  refine List.map_congr_left fun p hp => ?_
  have hlt := List.snd_lt_of_mem_zipIdx hp
  -- A tint over a cell of the text is not empty and begins on the text.
  have hover : ∀ t : Tint, (decide (t.Contains p.2) &&
      decide (t.start < t.stop ∧ t.start < l.text.length)) = decide (t.Contains p.2) := by
    intro t
    rw [Bool.eq_iff_iff, Bool.and_eq_true, decide_eq_true_iff, decide_eq_true_iff]
    unfold Span.Contains
    omega
  unfold codesOver Tint.codesOver TextRow.visible
  rw [inOrder_eq_mergeSort, List.filter_filter]
  simp only [hover]

/-- **The colours of a line that was annotated step by step.** Its text row is a stream of tokens;
a terminal shows the characters of the text one by one, each in the styles of exactly the tints over
it, and is left in no style at all. -/
theorem play_textRow_attemptAll (text : Text) (numbered : Bool) (number : Int)
    (as : List Annotation) :
    let l := (bare text numbered number).attemptAll as
    l.showText true = l.textRow.tokens.flatMap Token.text ∧
      Terminal.play {} l.textRow.tokens =
        { shown := text.zipIdx.map fun p => ([p.1], l.codesOver p.2), active := [] } := by
  intro l
  have hsound : l.Sound := (sound_bare text numbered number).attemptAll as
  have htext : l.text = text := (bare text numbered number).text_attemptAll as
  refine ⟨Row.emit_true _, ?_⟩
  rw [play_textRow fun t ht => (hsound.tints t ht).1, htext]

end Line

end Marginalia
