import Marginalia.Proofs.Extent
import Marginalia.Proofs.Finding.Draft
import Marginalia.Proofs.Traversal

/-!
# What a finding shows

A finding is shown source by source, and the report of each source accounts for all evidence in it
(`Finding.reports?_account`). It is refused for nothing but a piece outside its source, or a report
that cannot be written; and that is a report whose line numbers have too many digits.

Results:
* `Draft.Traces.excess?_eq`: what the report of a source can be refused for.
* `Finding.report_ok`, `Finding.report_error`: the report of one source.
* `Finding.reports?_account`: the reports of all sources.
-/

namespace Marginalia

/-! ## What the report of a source can be refused for -/

namespace Source

variable {s : Source} {sev : Severity}

/-- There is room for the mark of a piece, as there is for its source. -/
theorem Shows.fits {p : Evidence} {m : Mark} (h : s.Shows sev p m) : m.underline.Fits := by
  obtain ⟨column, hhere, htext, hunderline⟩ := h
  obtain ⟨-, h0, hlen, -⟩ := position_bounds hhere
  have htextlen := length_rowText_le htext
  have hroom := s.fits
  simp only at h0 hlen
  rw [hunderline]
  exact sev.fits_beneath h0 (by omega) (by omega) _ _

end Source

namespace Draft.Traces

variable {s : Source} {sev : Severity} {pieces : List Evidence} {d : Draft}

theorem fits (h : d.Traces s sev pieces) :
    ∀ l ∈ d.report.shown, ∀ u ∈ l.underlines, u.Fits := by
  intro l hl u hu
  have hmark : ⟨l.number, l.text, u⟩ ∈ d.report.marks := Report.mem_marks.mpr ⟨l, hl, u, hu, rfl⟩
  obtain ⟨p, -, hshows⟩ := h.accounts.exists_piece hmark
  exact hshows.fits

/-- The numbers of a report are less than where its cursor stands. -/
theorem number_lt (h : d.Traces s sev pieces) :
    ∀ l ∈ d.report.shown, l.number < d.report.numbering.cursor := by
  intro l hl
  obtain hblank | ⟨before, last, hend, -⟩ := h.stands
  · rw [hblank.shown] at hl
    cases hl
  · have horder : (d.report.shown.map (·.number)).Pairwise (· ≤ ·) := by
      rw [← List.isChain_iff_pairwise, List.isChain_map]
      exact h.accounts.following.imp fun _ _ => Line.MayFollow.number_le
    rw [Report.shown, hend.blocks, Report.numbered_concat before hend.numbered] at hl horder
    rw [List.map_append, List.pairwise_append] at horder
    rw [hend.numbering]
    rcases List.mem_append.mp hl with hl | hl
    · have hle := horder.2.2 l.number (List.mem_map_of_mem hl) last.number (by simp)
      exact Int.lt_add_one_of_le hle
    · rw [List.mem_singleton.mp hl]
      exact Int.lt_succ last.number

/-- The cursor has passed the lines of all pieces. -/
theorem row_lt (h : d.Traces s sev pieces) {p : Evidence} (hp : p ∈ pieces) {here : Position}
    (hhere : s.position p.spot.start = .ok here) : here.row < d.report.numbering.cursor := by
  obtain ⟨m, hm, column, hthere, -⟩ := h.accounts.exists_mark hp
  obtain ⟨l, hl, u, -, rfl⟩ := Report.mem_marks.mp hm
  cases hhere.symm.trans hthere
  exact h.number_lt l hl

theorem number_nonneg (h : d.Traces s sev pieces) (hfirst : 0 ≤ s.firstRow) :
    ∀ l ∈ d.report.shown, 0 ≤ l.number := by
  intro l hl
  obtain ⟨i, -, -, hrow, -⟩ := Source.rowText_eq_ok_iff.mp (h.accounts.lines l hl)
  omega

theorem firstNumber_nonneg (h : d.Traces s sev pieces) (hfirst : 0 ≤ s.firstRow) :
    0 ≤ d.report.firstNumber := by
  unfold Report.firstNumber
  split
  · rename_i l hfind
    exact h.number_nonneg hfirst l
      (List.mem_filter.mpr ⟨List.mem_of_find?_eq_some hfind, List.find?_some hfind⟩)
  · decide

/-- **The report of a source is refused for the number that measures its gutter**, or not at all. -/
theorem excess?_eq (h : d.Traces s sev pieces) (hfirst : 0 ≤ s.firstRow) :
    d.report.excess? =
      Text.decimalExcess? (d.report.firstNumber + d.report.numbering.cursor) := by
  have hgutter := h.firstNumber_nonneg hfirst
  refine Report.excess?_of_fits h.fits fun l hl => ?_
  have hlt := h.number_lt l hl
  have hl0 := h.number_nonneg hfirst l hl
  omega

end Draft.Traces

/-! ## All sources -/

/-- Pieces of evidence in the order in which they are shown: by their starts, and as they came where
they start together. -/
def Evidence.sorted (pieces : List Evidence) : List Evidence :=
  pieces.mergeSort fun a b => a.spot.start ≤ b.spot.start

theorem Evidence.inOrder_eq_sorted (pieces : List Evidence) :
    inOrder (·.spot.start) pieces = sorted pieces := inOrder_eq_mergeSort _ pieces

namespace Finding

variable {κ : Type} {f : Finding κ} {src : κ → Source} {known : κ × List Evidence}

/-- The report of a source that holds all its pieces is made, in one trace of them all. -/
theorem report_ok (hfirst : 0 ≤ (src known.1).firstRow)
    (hholds : ∀ p ∈ known.2, (src known.1).Holds p) (color : Bool) :
    ∃ d : Draft, f.report (fun key => .ok (src key)) color known = .ok d.report ∧
      d.Traces (src known.1) f.severity (Evidence.sorted known.2) := by
  rw [← Evidence.inOrder_eq_sorted]
  exact Source.evidenceReport_ok f.severity hfirst hholds color

theorem report_error (hfirst : 0 ≤ (src known.1).firstRow)
    (hout : ∃ p ∈ known.2, ¬ (src known.1).Holds p) (color : Bool) :
    ∃ p ∈ known.2, ¬ (src known.1).Holds p ∧
      f.report (fun key => .ok (src key)) color known =
        Fault.refuse (.offsetOutside p.spot.start) :=
  Source.evidenceReport_error hfirst hout color

/-- A report is refused for nothing but a piece outside its source. -/
theorem exists_of_report_eq_error (hfirst : 0 ≤ (src known.1).firstRow) {color : Bool} {e : Fault}
    (h : f.report (fun key => .ok (src key)) color known = .error e) :
    ∃ p ∈ known.2, ¬ (src known.1).Holds p ∧ e = (Fault.offsetOutside p.spot.start).uttered := by
  by_cases hout : ∃ p ∈ known.2, ¬ (src known.1).Holds p
  · obtain ⟨p, hp, hnot, herror⟩ := report_error (f := f) hfirst hout color
    rw [herror, Fault.refuse, Except.error.injEq] at h
    exact ⟨p, hp, hnot, h.symm⟩
  · obtain ⟨r, hr, -⟩ := report_ok (f := f) hfirst
      (fun p hp => Decidable.byContradiction fun hnot => hout ⟨p, hp, hnot⟩) color
    cases hr.symm.trans h

/-- A report that is made accounts for the evidence. -/
theorem accounts_of_report_eq_ok (hfirst : 0 ≤ (src known.1).firstRow) {color : Bool}
    {r : Report Line} (h : f.report (fun key => .ok (src key)) color known = .ok r) :
    r.Accounts (src known.1) f.severity (Evidence.sorted known.2) := by
  by_cases hout : ∃ p ∈ known.2, ¬ (src known.1).Holds p
  · obtain ⟨p, -, -, herror⟩ := report_error (f := f) hfirst hout color
    cases herror.symm.trans h
  · obtain ⟨d, hd, htraces⟩ := report_ok (f := f) hfirst
      (fun p hp => Decidable.byContradiction fun hnot => hout ⟨p, hp, hnot⟩) color
    cases hd.symm.trans h
    exact htraces.accounts

/-- A report that is made and can be written. -/
def written (made : Except Fault (Report Line)) : Except Fault (Report Line) := do
  let r ← made
  Fault.check r.excess?
  return r

theorem written_ok (r : Report Line) :
    written (.ok r) = match r.excess? with
      | some e => .error e
      | none => .ok r := by
  show (Fault.check r.excess? >>= fun _ => pure r) = _
  cases r.excess? <;> rfl

theorem written_eq_ok_iff {made : Except Fault (Report Line)} {r : Report Line} :
    written made = .ok r ↔ made = .ok r ∧ r.excess? = none := by
  cases made with
  | error e => simp [written, bind, Except.bind]
  | ok r' =>
    rw [written_ok]
    constructor
    · intro h
      split at h
      · cases h
      · cases h
        exact ⟨rfl, ‹_›⟩
    · rintro ⟨h, hnone⟩
      cases h
      rw [hnone]

theorem written_eq_error_iff {made : Except Fault (Report Line)} {e : Fault} :
    written made = .error e ↔ made = .error e ∨ ∃ r, made = .ok r ∧ r.excess? = some e := by
  cases made with
  | error e' => simp [written, bind, Except.bind]
  | ok r' =>
    rw [written_ok]
    constructor
    · intro h
      split at h
      · cases h
        exact Or.inr ⟨r', rfl, ‹_›⟩
      · cases h
    · rintro (h | ⟨r, h, hsome⟩)
      · cases h
      · cases h
        rw [hsome]

theorem reports?_eq (f : Finding κ) (fetch : κ → Except Fault Source) (color : Bool) :
    f.reports? fetch color = f.evidence.mapM fun known => written (f.report fetch color known) :=
  rfl

/-- All that the report of one source is refused for. -/
theorem exists_of_written_report_eq_error (hfirst : 0 ≤ (src known.1).firstRow) {color : Bool}
    {e : Fault} (h : written (f.report (fun key => .ok (src key)) color known) = .error e) :
    (∃ p ∈ known.2, ¬ (src known.1).Holds p ∧ e = (Fault.offsetOutside p.spot.start).uttered) ∨
      ∃ r, f.report (fun key => .ok (src key)) color known = .ok r ∧ r.excess? = some e ∧
        e.IsExcess := by
  rcases written_eq_error_iff.mp h with h | ⟨r, hr, hexcess⟩
  · exact Or.inl (exists_of_report_eq_error hfirst h)
  · exact Or.inr ⟨r, hr, hexcess, Report.excess?_isExcess hexcess⟩

/-- When the report of one source is refused. -/
theorem written_report_eq_error_iff (hfirst : 0 ≤ (src known.1).firstRow) (color : Bool) :
    (∃ e, written (f.report (fun key => .ok (src key)) color known) = .error e) ↔
      (∃ p ∈ known.2, ¬ (src known.1).Holds p) ∨
        ∃ r, f.report (fun key => .ok (src key)) color known = .ok r ∧ r.excess? ≠ none := by
  constructor
  · rintro ⟨e, he⟩
    obtain ⟨p, hp, hnot, -⟩ | ⟨r, hr, hexcess, -⟩ := exists_of_written_report_eq_error hfirst he
    · exact Or.inl ⟨p, hp, hnot⟩
    · exact Or.inr ⟨r, hr, by simp [hexcess]⟩
  · rintro (hout | ⟨r, hr, hexcess⟩)
    · obtain ⟨p, -, -, he⟩ := report_error (f := f) hfirst hout color
      exact ⟨_, written_eq_error_iff.mpr (Or.inl he)⟩
    · obtain ⟨e, he⟩ := Option.ne_none_iff_exists'.mp hexcess
      exact ⟨e, written_eq_error_iff.mpr (Or.inr ⟨r, hr, he⟩)⟩

/-- **A finding shows every piece of its evidence exactly once.** Of sources whose lines have no
negative numbers, it is refused iff some piece lies outside its source or some report cannot be
written. A piece outside is refused as such, or for too many digits where it begins too far outside
to say so, and nothing else about a piece is refused. The report of a source that holds all its
pieces is made and accounts for them, and it can be written unless the number that measures its
gutter has too many digits. No warning is ever given on the way, whether or not a later piece is
refused. -/
theorem reports?_account (f : Finding κ) (src : κ → Source) (color : Bool)
    (hfirst : ∀ known ∈ f.evidence, 0 ≤ (src known.1).firstRow) :
    let fetch : κ → Except Fault Source := fun key => .ok (src key)
    ((∃ e, f.reports? fetch color = .error e) ↔ ∃ known ∈ f.evidence,
      (∃ p ∈ known.2, ¬ (src known.1).Holds p) ∨
        ∃ r, f.report fetch color known = .ok r ∧ r.excess? ≠ none) ∧
    (∀ e, f.reports? fetch color = .error e → ∃ known ∈ f.evidence,
      (∃ p ∈ known.2, ¬ (src known.1).Holds p ∧
        e = if Text.digitLimit < Text.digitCount p.spot.start then .numberTooLong
          else .offsetOutside p.spot.start) ∨
        ∃ r, f.report fetch color known = .ok r ∧ r.excess? = some e ∧ e.IsExcess) ∧
    (∀ rs, f.reports? fetch color = .ok rs → List.Forall₂ (fun known r =>
      f.report fetch color known = .ok r ∧
        r.Accounts (src known.1) f.severity (Evidence.sorted known.2)) f.evidence rs) ∧
    (∀ known ∈ f.evidence, (∀ p ∈ known.2, (src known.1).Holds p) →
      ∃ r, f.report fetch color known = .ok r ∧
        r.Accounts (src known.1) f.severity (Evidence.sorted known.2) ∧
        r.excess? = Text.decimalExcess? (r.firstNumber + r.numbering.cursor)) ∧
    ∀ known ∈ f.evidence, ∀ before after d, Evidence.sorted known.2 = before ++ after →
      before.foldlM (Draft.add f.severity (src known.1)) ((src known.1).opening color) = .ok d →
      d.report.warnings = [] := by
  intro fetch
  refine ⟨?_, fun e he => ?_, fun rs hrs => ?_, fun known hknown hholds => ?_,
    fun known hknown before after d hsplit hrun => ?_⟩
  · rw [reports?_eq, mapM_eq_error_iff]
    exact exists_congr fun known => and_congr_right fun hknown =>
      written_report_eq_error_iff (hfirst known hknown) color
  · obtain ⟨known, hknown, hwritten⟩ := exists_of_mapM_eq_error he
    refine ⟨known, hknown, ?_⟩
    obtain ⟨p, hp, hnot, rfl⟩ | hexcess :=
      exists_of_written_report_eq_error (hfirst known hknown) hwritten
    · exact Or.inl ⟨p, hp, hnot, Fault.uttered_of_numbers_eq rfl⟩
    · exact Or.inr hexcess
  · have hall := (List.forall₂_and_left f.evidence rs).mpr
      ⟨hfirst, forall₂_of_mapM_eq_ok (show f.evidence.mapM _ = _ from hrs)⟩
    refine hall.imp fun known r ⟨hknown, hwritten⟩ => ?_
    have hr := (written_eq_ok_iff.mp hwritten).1
    exact ⟨hr, accounts_of_report_eq_ok hknown hr⟩
  · obtain ⟨d, hd, htraces⟩ := report_ok (f := f) (hfirst known hknown) hholds color
    exact ⟨d.report, hd, htraces.accounts, htraces.excess?_eq (hfirst known hknown)⟩
  · rw [← Evidence.inOrder_eq_sorted] at hsplit
    exact (Source.traces_of_foldlM_ok (hfirst known hknown) hsplit hrun).accounts.quiet

-- Of three pieces in the first line, the two that do not collide share its first copy.
example :
    let s : Source := { content := ['a', 'b', '\n', 'c'] }
    let f : Finding Unit := { activity := [], severity := .error, summary := [], evidence :=
      [((), [{ spot := ⟨3, 4⟩ }, { spot := ⟨1, 2⟩ }, { spot := ⟨0, 2⟩ }, { spot := ⟨1, 1⟩ }])] }
    (f.reports? (fun _ => .ok s) false).map (·.map fun r => r.marks.map fun m =>
      (m.row, m.underline.toSpan)) =
      .ok [[(1, ⟨0, 2⟩), (1, ⟨1, 2⟩), (1, ⟨1, 2⟩), (2, ⟨0, 1⟩)]] := by
  decide

/-- Three pieces, of which the one that is listed last comes first and the other two lie in its last
cell and in the next line. -/
theorem reports?_account_three_pieces :
    let s : Source := { content := ['a', 'b', '\n', 'c'] }
    let pieces : List Evidence := [{ spot := ⟨3, 4⟩ }, { spot := ⟨1, 2⟩ }, { spot := ⟨0, 2⟩ }]
    let f : Finding Unit :=
      { activity := [], severity := .error, summary := [], evidence := [((), pieces)] }
    (∀ known ∈ f.evidence, 0 ≤ s.firstRow) ∧
      ∃ r, f.report (fun _ => .ok s) false ((), pieces) = .ok r ∧
        r.Accounts s .error (Evidence.sorted pieces) ∧
        r.excess? = Text.decimalExcess? (r.firstNumber + r.numbering.cursor) := by
  intro s pieces f
  have hfirst : ∀ known ∈ f.evidence, 0 ≤ s.firstRow := fun _ _ => by decide
  have hholds : ∀ p ∈ pieces, s.Holds p := by decide
  obtain ⟨r, hr, haccounts, hexcess⟩ := (reports?_account f (fun _ => s) false hfirst).2.2.2.1
    ((), pieces) List.mem_cons_self hholds
  exact ⟨hfirst, r, hr, haccounts, hexcess⟩

/-- Pieces outside their sources are not all that a finding is refused for: no piece is, when the
only line of a source has the largest number that can be written, but the gutter is measured by a
larger one. -/
theorem reports?_refuses_long_numbers :
    ¬ ∀ (f : Finding Unit) (src : Unit → Source) (color : Bool),
      (∀ known ∈ f.evidence, 0 ≤ (src known.1).firstRow) →
      ((∃ e, f.reports? (fun key => .ok (src key)) color = .error e) ↔
        ∃ known ∈ f.evidence, ∃ p ∈ known.2, ¬ (src known.1).Holds p) := by
  intro hclaim
  obtain ⟨n, hpos, -, hlong⟩ := Text.exists_longest
  let s : Source := { content := ['a'], firstRow := n }
  let piece : Evidence := { spot := ⟨0, 1⟩, caption := ['c'] }
  let f : Finding Unit :=
    { activity := ['p'], severity := .error, summary := ['d'], evidence := [((), [piece])] }
  have hlarge : s.firstRow = n := rfl
  have hfirst : 0 ≤ s.firstRow := Int.le_of_lt hpos
  have hholds : ∀ p ∈ [piece], s.Holds p := by
    intro p hp
    rw [List.mem_singleton.mp hp]
    exact ⟨Int.le_refl 0, Int.natCast_nonneg 1⟩
  obtain ⟨d, hmade, htraces⟩ := @report_ok _ f (fun _ => s) ((), [piece]) hfirst hholds false
  obtain ⟨here, hhere⟩ := Source.exists_position (hholds piece (by simp)).1
    (hholds piece (by simp)).2
  have hrow := (Source.position_bounds hhere).1
  have hsorted : piece ∈ Evidence.sorted [piece] := by simp [Evidence.sorted]
  have hcursor := htraces.row_lt hsorted hhere
  have hgutter := htraces.firstNumber_nonneg hfirst
  have hexcess : d.report.excess? ≠ none := by
    rw [htraces.excess?_eq hfirst, Text.decimalExcess?_of_long (hlong _ (by omega))]
    exact Option.some_ne_none _
  obtain ⟨e, he⟩ := Option.ne_none_iff_exists'.mp hexcess
  have hrefused : ∃ e, f.reports? (fun _ => .ok s) false = .error e := by
    rw [reports?_eq, mapM_eq_error_iff]
    exact ⟨((), [piece]), List.mem_cons_self, e,
      written_eq_error_iff.mpr (Or.inr ⟨d.report, hmade, he⟩)⟩
  obtain ⟨known, hknown, p, hp, hnot⟩ := (hclaim f (fun _ => s) false fun _ _ => hfirst).mp hrefused
  rw [List.mem_singleton.mp hknown] at hp
  exact hnot (hholds p hp)

end Finding

end Marginalia
