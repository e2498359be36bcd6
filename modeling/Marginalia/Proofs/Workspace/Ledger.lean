import Marginalia.Proofs.Ledger
import Marginalia.Proofs.Workspace.Record

/-!
# The ledger of a run

A run of requests to a report leaves a ledger, read off from what can be seen: the numbers on the
blocks that are new after a request, and for a jump where the cursor was before and after, and the
blocks that came of it. As long as the cursor is never to move back, the numbering keeps this ledger
(`Workspace.Booked.books`). So every line that a reader does not get to see is accounted for.

Results:
* `Workspace.books_postings`: what a request adds to the ledger.
* `Workspace.skips_of_run`: notices account for the lines that are left out.
-/

namespace Marginalia

open Ledger

/-- The cursor is not negative and not behind the latest number. -/
structure Numbering.Upward (n : Numbering) : Prop where
  cursor : 0 ≤ n.cursor
  last : ∀ last, n.last = some last → last ≤ n.cursor

namespace Numbering

variable {n n' : Numbering} {e : Posting} {log : Ledger}

theorem Upward.posts (hn : n.Upward) (h : Posts n e n') : n'.Upward := by
  cases h with
  | numbered =>
    refine ⟨Int.add_nonneg hn.cursor (by decide), fun last hlast => ?_⟩
    cases hlast
    exact Int.le_of_lt (Int.lt_succ n.cursor)
  | leap htarget =>
    exact ⟨Int.le_trans hn.cursor htarget, fun last hlast =>
      Int.le_trans (hn.last last hlast) htarget⟩
  | refused => exact hn

theorem Upward.books (hn : n.Upward) (h : Books n log n') : n'.Upward := by
  induction log generalizing n with
  | nil => exact (show n' = n from h) ▸ hn
  | cons e log ih =>
    obtain ⟨n₁, hpost, hlog⟩ := h
    exact ih (hn.posts hpost) hlog

end Numbering

namespace Workspace

variable {w w' : Workspace} {r : ReportId}

/-- What can be seen of the numbering of a report, and of its notices, when a request is carried
out. -/
def postings (w : Workspace) (r : ReportId) (q : Request) : Ledger :=
  let w' := (w.carryOut r q).2
  let new := (w'.view r).blocks.drop (w.view r).blocks.length
  match q with
  | .jump target tellSkip => [.leap {
      start := (w.report r).numbering.cursor
      target := target
      stop := (w'.report r).numbering.cursor
      tellSkip := tellSkip
      put := new }]
  | _ => (new.filterMap Line.number?).map .numbered

/-- **What a jump that does not go back adds to the ledger**, if skipped lines are to be told of:
either what it leaves behind, or nothing, since the count of the lines is too long. -/
theorem posts_jump (hw : w.Proper r) (hup : (w.report r).numbering.Upward) {target : Int}
    (hahead : (w.report r).numbering.cursor ≤ target) :
    (∃ e, w.postings r (.jump target true) = [e] ∧ e.number? = none ∧
      Numbering.Posts (w.report r).numbering e
        ((w.carryOut r (.jump target true)).2.report r).numbering) ∧
    ((w.carryOut r (.jump target true)).2.view r).numbers = (w.view r).numbers := by
  obtain ⟨e, hmade, hwhy⟩ | ⟨w', hmade, -, hnumbering, -, hblocks⟩ :=
    carryOut_jump_cases hw target true
  · -- the cursor is at zero or beyond and no number is beyond the cursor
    have hstarted : (w.report r).numbering.started = true := by
      obtain hneg | ⟨last, hlast, hback, -⟩ | ⟨hstarted, -⟩ := Numbering.refused_of_jump hwhy
      · have := hup.cursor
        omega
      · have := hup.last last hlast
        omega
      · exact hstarted
    rw [postings, hmade]
    refine ⟨⟨_, rfl, rfl, ?_⟩, rfl⟩
    simp only [List.drop_length]
    exact .refused _ hstarted
  · rw [postings, hmade]
    simp only [hblocks, hnumbering, List.drop_left]
    refine ⟨⟨_, rfl, rfl, .leap _ hahead⟩, ?_⟩
    rw [Report.numbers, hblocks, List.filterMap_append, Report.number?_skipNotices,
      List.append_nil, Report.numbers]

/-- What other requests add to the ledger: the numbers of the lines that are taken in. -/
theorem postings_lines (hw : w.Proper r) {q : Request} (hjump : q.isJump = false)
    (hq : ∀ c ∈ q.contents, w.Holds c) : w.postings r q =
      (List.range q.lineCount).map fun i : Nat =>
        .numbered ((w.report r).numbering.cursor + i) := by
  have hpostings : w.postings r q = (((w.carryOut r q).2.view r).blocks.drop
      (w.view r).blocks.length |>.filterMap Line.number?).map .numbered := by
    cases q with
    | jump target tellSkip => cases hjump
    | note c => rfl
    | line c => rfl
    | lines cs => rfl
  rw [hpostings, (Numbers.of_carryOut hw hjump hq).filterMap_drop, List.map_map]
  rfl

/-- **What a request adds to the ledger of a numbering**, if it does not move the cursor back: its
postings, whose numbers are what the report shows more. -/
theorem books_postings (hw : w.Proper r) (hup : (w.report r).numbering.Upward) {q : Request}
    (hq : ∀ c ∈ q.contents, w.Holds c)
    (hahead : ∀ l, .leap l ∈ w.postings r q → l.start ≤ l.target ∧ l.tellSkip = true) :
    Numbering.Books (w.report r).numbering (w.postings r q)
        ((w.carryOut r q).2.report r).numbering ∧
      ((w.carryOut r q).2.view r).numbers = (w.view r).numbers ++ numbers (w.postings r q) := by
  cases hjump : q.isJump with
  | true =>
    cases q with
    | note c => cases hjump
    | line c => cases hjump
    | lines cs => cases hjump
    | jump target tellSkip =>
      obtain ⟨hle, rfl⟩ := hahead _ (List.mem_singleton.mpr rfl)
      obtain ⟨⟨e, hpostings, hnone, hposts⟩, hnumbers⟩ := posts_jump hw hup hle
      have hnumber : numbers [e] = [] := by simp [numbers, hnone]
      rw [hpostings, hnumbers, hnumber]
      exact ⟨⟨_, hposts, rfl⟩, (List.append_nil _).symm⟩
  | false =>
    obtain ⟨⟨new, hblocks, hnumbers⟩, hnumbering⟩ := Numbers.of_carryOut hw hjump hq
    rw [postings_lines hw hjump hq, hnumbering]
    refine ⟨Numbering.books_lines _ _, ?_⟩
    have hsame : numbers ((List.range q.lineCount).map fun i : Nat =>
        .numbered ((w.report r).numbering.cursor + i)) =
        (List.range q.lineCount).map fun i : Nat => (w.report r).numbering.cursor + i := by
      rw [numbers, List.filterMap_map]
      exact congrFun List.filterMap_eq_map _
    rw [Report.numbers, hblocks, List.filterMap_append, hnumbers, hsame, Report.numbers]

/-! ## Runs -/

/-- What happens to a workspace from the viewpoint of one report, and the ledger that this leaves:
requests to it, and in between anything elsewhere that does not touch its numbering, its blocks and
their numbers. -/
inductive Booked (r : ReportId) (w₀ : Workspace) : Ledger → Workspace → Prop
  | start : Booked r w₀ [] w₀
  | request {log : Ledger} {w : Workspace} {q : Request} (h : Booked r w₀ log w)
    (hq : ∀ c ∈ q.contents, w.Holds c) : Booked r w₀ (log ++ w.postings r q) (w.carryOut r q).2
  | elsewhere {log : Ledger} {w w' : Workspace} (h : Booked r w₀ log w) (hw : Spares r w w') :
    Booked r w₀ log w'

/-- **A numbering keeps the ledger of a run** that never moves the cursor back. -/
theorem Booked.books {w₀ : Workspace} {log : Ledger} (h : Booked r w₀ log w)
    (hw₀ : w₀.Proper r) (hup₀ : (w₀.report r).numbering.Upward)
    (hahead : ∀ l, .leap l ∈ log → l.start ≤ l.target ∧ l.tellSkip = true) :
    w.Proper r ∧ Numbering.Books (w₀.report r).numbering log (w.report r).numbering ∧
      (w.view r).numbers = (w₀.view r).numbers ++ numbers log := by
  induction h with
  | start => exact ⟨hw₀, rfl, (List.append_nil _).symm⟩
  | request _ hq ih =>
    obtain ⟨hproper, hbooks, hnumbers⟩ :=
      ih fun l hl => hahead l (List.mem_append_left _ hl)
    obtain ⟨hbooks', hnumbers'⟩ := books_postings hproper (hup₀.books hbooks) hq
      fun l hl => hahead l (List.mem_append_right _ hl)
    refine ⟨(frame_carryOut hproper hq).1, Numbering.books_append_iff.mpr ⟨_, hbooks, hbooks'⟩, ?_⟩
    rw [hnumbers', hnumbers, numbers_append, List.append_assoc]
  | elsewhere _ hspares ih =>
    obtain ⟨hproper, hbooks, hnumbers⟩ := ih hahead
    exact ⟨hspares.proper hproper, hspares.numbering ▸ hbooks,
      hspares.keeps.numbers_eq.trans hnumbers⟩

/-- **Notices account for the lines that are left out.** Along a run of a new report in which
skipped lines are to be told of and no jump goes back behind the cursor: between two numbers in a
row lie as many as the notices between them count, and one more for each jump by one; each notice
counts two lines or more; a jump that sets the cursor first leaves none behind; and from where it
was set first, the cursor has moved on by one for each number, by all that the notices count, and by
one for each later jump by one. -/
theorem skips_of_run {w₀ : Workspace} {log : Ledger} (hfresh : w₀.Fresh r)
    (hrun : Booked r w₀ log w)
    (hahead : ∀ l, .leap l ∈ log → l.start ≤ l.target ∧ l.tellSkip = true) :
    (w.view r).numbers = numbers log ∧
    (∀ (before : Ledger) (p : Int) (between : Ledger) (q : Int) (after : Ledger),
      log = before ++ .numbered p :: (between ++ .numbered q :: after) → numbers between = [] →
      q - p - 1 = told between + hops between) ∧
    (∀ l, .leap l ∈ log → ∀ b ∈ l.put,
      ∃ count : Nat, 2 ≤ count ∧ b = Line.skipNotice count ∧ b.toldCount = count) ∧
    (∀ l rest, log = .leap l :: rest → l.put = []) ∧
    (w.report r).numbering.cursor =
      origin log + (numbers log).length + told log + hops (later log) := by
  have hup₀ : (w₀.report r).numbering.Upward := by
    rw [hfresh.numbering_eq]
    exact ⟨by decide, nofun⟩
  obtain ⟨-, hbooks, hnumbers⟩ := hrun.books hfresh.proper hup₀ hahead
  rw [hfresh.numbering_eq] at hbooks
  refine ⟨?_, fun before p between q after hsplit hnone => (hsplit ▸ hbooks).between hnone,
    fun l hl => hbooks.notices hl, fun l rest hfirst => (hfirst ▸ hbooks).put_first, hbooks.total⟩
  obtain ⟨color, indentAll, hreport⟩ := hfresh.report_eq
  rw [hnumbers, view, hreport]
  rfl

/-- A run with a jump that sets the cursor, one by one line, two in a row that leave lines out, and
one that stays where it is. -/
theorem skips_of_run_to_thirty :
    let w₀ := (({} : Workspace).newReport {}).1
    let w₁ := (w₀.carryOut 0 (.jump 5 true)).2
    let w₂ := (w₁.carryOut 0 (.lines [.text ['a'], .text ['b']])).2
    let w₃ := (w₂.carryOut 0 (.jump 8 true)).2
    let w₄ := (w₃.carryOut 0 (.jump 20 true)).2
    let w₅ := (w₄.carryOut 0 (.note (.text ['7']))).2
    let w₆ := (w₅.carryOut 0 (.jump 30 true)).2
    let w₇ := (w₆.carryOut 0 (.jump 30 true)).2
    let w₈ := (w₇.carryOut 0 (.line (.text ['c']))).2
    let between : Ledger := [
      .leap { start := 7, target := 8, stop := 8, tellSkip := true, put := [] },
      .leap { start := 8, target := 20, stop := 20, tellSkip := true, put := [Line.skipNotice 12] },
      .leap {
        start := 20, target := 30, stop := 30, tellSkip := true, put := [Line.skipNotice 10] },
      .leap { start := 30, target := 30, stop := 30, tellSkip := true, put := [] }]
    let log : Ledger :=
      .leap { start := 1, target := 5, stop := 5, tellSkip := true, put := [] } ::
        .numbered 5 :: .numbered 6 :: (between ++ [.numbered 30])
    w₀.Fresh 0 ∧ Booked 0 w₀ log w₈ ∧
      (∀ l, .leap l ∈ log → l.start ≤ l.target ∧ l.tellSkip = true) ∧
      (30 : Int) - 6 - 1 = told between + hops between ∧ told between = 22 ∧ hops between = 1 ∧
      (w₈.report 0).numbering.cursor = 5 + 3 + 22 + 1 := by
  intro w₀ w₁ w₂ w₃ w₄ w₅ w₆ w₇ w₈ between log
  have hfresh : w₀.Fresh 0 := ⟨{}, false, false, rfl⟩
  have h₁ : Booked 0 w₀ _ w₁ := .request .start (by decide)
  have h₂ : Booked 0 w₀ _ w₂ := .request h₁ (by decide)
  have h₃ : Booked 0 w₀ _ w₃ := .request h₂ (by decide)
  have h₄ : Booked 0 w₀ _ w₄ := .request h₃ (by decide)
  have h₅ : Booked 0 w₀ _ w₅ := .request h₄ (by decide)
  have h₆ : Booked 0 w₀ _ w₆ := .request h₅ (by decide)
  have h₇ : Booked 0 w₀ _ w₇ := .request h₆ (by decide)
  have h₈ : Booked 0 w₀ (_ ++ w₇.postings 0 (.line (.text ['c']))) w₈ := .request h₇ (by decide)
  have hlog : [] ++ w₀.postings 0 (.jump 5 true) ++
      w₁.postings 0 (.lines [.text ['a'], .text ['b']]) ++ w₂.postings 0 (.jump 8 true) ++
      w₃.postings 0 (.jump 20 true) ++ w₄.postings 0 (.note (.text ['7'])) ++
      w₅.postings 0 (.jump 30 true) ++ w₆.postings 0 (.jump 30 true) ++
      w₇.postings 0 (.line (.text ['c'])) = log := by decide +kernel
  rw [hlog] at h₈
  have hahead : ∀ l, .leap l ∈ log → l.start ≤ l.target ∧ l.tellSkip = true := by
    intro l hl
    simp only [log, between, List.mem_cons, List.mem_append, List.not_mem_nil, or_false,
      Posting.leap.injEq, reduceCtorEq, false_or] at hl
    rcases hl with rfl | rfl | rfl | rfl | rfl <;> decide
  have hlaws := skips_of_run hfresh h₈ hahead
  refine ⟨hfresh, h₈, hahead, ?_, by decide +kernel, by decide +kernel, ?_⟩
  · exact hlaws.2.1 [_, .numbered 5] 6 between 30 [] rfl rfl
  · exact hlaws.2.2.2.2.trans (by decide +kernel)

end Workspace

end Marginalia
