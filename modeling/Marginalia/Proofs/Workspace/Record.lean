import Marginalia.Proofs.Extent
import Marginalia.Proofs.Record
import Marginalia.Proofs.Workspace.Frame

/-!
# The numbering of a report along a run

A run of requests to a report leaves a record of its numbering, read off from what can be seen: the
numbers on the blocks that are new after a request, and for a jump where the cursor was, whether the
jump was refused and whether a warning was added. The numbering goes through this record
(`Workspace.Logged.replays`), and what is known of records holds of the run.

Results:
* `Workspace.replays_events`: what a request makes a numbering go through.
* `Workspace.numbering_of_run`: numbers, cursor and warnings along a run.
-/

namespace Marginalia

/-- How many lines a request numbers. -/
def Request.lineCount : Request → Nat
  | line c => if c.isUsable then 1 else 0
  | lines cs => (cs.takeWhile Content.isUsable).length
  | _ => 0

theorem Numbering.cursor_iterate_advance (n : Numbering) : ∀ k : Nat,
    (Numbering.advance^[k] n).cursor = n.cursor + k
  | 0 => (Int.add_zero _).symm
  | k + 1 => by
    rw [Function.iterate_succ_apply, cursor_iterate_advance n.advance k]
    show n.cursor + 1 + (k : Int) = n.cursor + ((k + 1 : Nat) : Int)
    omega

namespace Workspace

variable {w w₁ w₂ w' : Workspace} {r : ReportId} {c : Content}

/-- What can be seen of the numbering of a report when a request is carried out. -/
def events (w : Workspace) (r : ReportId) (q : Request) : List Event :=
  let (answer, w') := w.carryOut r q
  match q with
  | .jump target _ => [.jump (w.report r).numbering.cursor target answer.isOk
      ((w'.report r).warnings ≠ (w.report r).warnings)]
  | _ => (((w'.view r).blocks.drop (w.view r).blocks.length).filterMap Line.number?).map .numbered

/-- A report comes to show so many numbers more, from its cursor on, and does nothing else with its
numbering. -/
structure Numbers (r : ReportId) (k : Nat) (w w' : Workspace) : Prop where
  blocks : ∃ new, (w'.view r).blocks = (w.view r).blocks ++ new ∧ new.filterMap Line.number? =
    (List.range k).map fun i : Nat => (w.report r).numbering.cursor + i
  numbering : (w'.report r).numbering = Numbering.advance^[k] (w.report r).numbering

namespace Numbers

theorem refl (r : ReportId) (w : Workspace) : Numbers r 0 w w :=
  ⟨⟨[], (List.append_nil _).symm, rfl⟩, rfl⟩

theorem note (hw : w.Proper r) (hc : w.Holds c) {id : LineId}
    (h : w.outcome (.addNote r c) = .ok (w', id)) :
    Numbers r 0 w w' := by
  obtain ⟨l, hview⟩ := view_addNote hw hc h
  refine ⟨⟨[l.unnumbered], congrArg Report.blocks hview, rfl⟩, ?_⟩
  show (w'.view r).numbering = (w.view r).numbering
  rw [hview]
  rfl

theorem line (hw : w.Proper r) (hc : w.Holds c) {id : LineId}
    (h : w.outcome (.addLine r c) = .ok (w', id)) :
    Numbers r 1 w w' := by
  obtain ⟨l, hview⟩ := view_addLine hw hc h
  refine ⟨⟨[l.stamped (w.report r).numbering.cursor], congrArg Report.blocks hview, ?_⟩,
    cursor_addLine hw hc h⟩
  simp [Line.stamped, Line.number?]

/-- One number and then others. -/
theorem cons {k : Nat} (h : Numbers r 1 w w₁) (h' : Numbers r k w₁ w₂) :
    Numbers r (k + 1) w w₂ := by
  obtain ⟨⟨new, hblocks, hnumbers⟩, hnumbering⟩ := h
  obtain ⟨⟨new', hblocks', hnumbers'⟩, hnumbering'⟩ := h'
  have hcursor : (w₁.report r).numbering.cursor = (w.report r).numbering.cursor + 1 :=
    congrArg Numbering.cursor hnumbering
  refine ⟨⟨new ++ new', by rw [hblocks', hblocks, List.append_assoc], ?_⟩, ?_⟩
  · have hone : (List.range 1).map (fun i : Nat => (w.report r).numbering.cursor + i) =
        [(w.report r).numbering.cursor + ((0 : Nat) : Int)] := rfl
    rw [List.filterMap_append, hnumbers, hnumbers', hcursor, hone, List.range_succ_eq_map (n := k),
      List.map_cons, List.map_map]
    refine congrArg (_ :: ·) (List.map_congr_left fun i _ => ?_)
    simp only [Function.comp_apply]
    omega
  · rw [hnumbering', hnumbering]
    exact (Function.iterate_succ_apply _ k _).symm

/-- **Several contents** get one number each, up to the first that is refused. -/
theorem lines {cs : List Content} : ∀ {w : Workspace}, w.Proper r → (∀ c ∈ cs, w.Holds c) →
    Numbers r (cs.takeWhile Content.isUsable).length w (w.carryOut r (.lines cs)).2 := by
  induction cs with
  | nil => exact fun _ _ => refl r _
  | cons c rest ih =>
    intro w hw hcs
    rw [carryOut_lines_cons]
    cases hc : c.isUsable with
    | false =>
      cases c with
      | text t => cases hc
      | line id => cases hc
      | other kind => exact refl r w
    | true =>
      obtain ⟨made, hmade⟩ := exists_addLine w r hc
      have hholds := hcs c List.mem_cons_self
      have hrest : ∀ c ∈ rest, made.1.Holds c := fun c hmem =>
        (hcs c (List.mem_cons_of_mem _ hmem)).mono (frame_addLine hw hholds hmade).lines
      rw [List.takeWhile_cons_of_pos hc, hmade]
      exact (line hw hholds hmade).cons (ih (hw.addLine hholds hmade) hrest)

/-- The numbers on the blocks that are new. -/
theorem filterMap_drop {k : Nat} (h : Numbers r k w w') :
    ((w'.view r).blocks.drop (w.view r).blocks.length).filterMap Line.number? =
      (List.range k).map fun i : Nat => (w.report r).numbering.cursor + i := by
  obtain ⟨new, hblocks, hnumbers⟩ := h.blocks
  rw [hblocks, List.drop_left, hnumbers]

theorem of_carryOut (hw : w.Proper r) {q : Request} (hjump : q.isJump = false)
    (hq : ∀ c ∈ q.contents, w.Holds c) : Numbers r q.lineCount w (w.carryOut r q).2 := by
  cases q with
  | jump target tellSkip => cases hjump
  | note c =>
    rw [carryOut_note]
    cases hmade : w.outcome (.addNote r c) with
    | error e => exact refl r w
    | ok made => exact note hw (hq c List.mem_cons_self) hmade
  | line c =>
    rw [carryOut_line]
    cases hc : c.isUsable with
    | false =>
      cases c with
      | text t => cases hc
      | line id => cases hc
      | other kind => exact refl r w
    | true =>
      obtain ⟨made, hmade⟩ := exists_addLine w r hc
      simp only [hmade, Request.lineCount, hc, if_true]
      exact line hw (hq c List.mem_cons_self) hmade
  | lines cs => exact lines hw hq

end Numbers

/-- **What is appended is numbered from the cursor on**, which moves on by as much. -/
theorem events_eq (hw : w.Proper r) {q : Request} (hjump : q.isJump = false)
    (hq : ∀ c ∈ q.contents, w.Holds c) : w.events r q =
      (List.range q.lineCount).map fun i : Nat =>
        .numbered ((w.report r).numbering.cursor + i) := by
  have hevents : w.events r q = (((w.carryOut r q).2.view r).blocks.drop
      (w.view r).blocks.length |>.filterMap Line.number?).map .numbered := by
    cases q with
    | jump target tellSkip => cases hjump
    | note c => rfl
    | line c => rfl
    | lines cs => rfl
  rw [hevents, (Numbers.of_carryOut hw hjump hq).filterMap_drop, List.map_map]
  rfl

/-- **All that a jump comes to**: it is refused, for its target or for a number that would have to
be told of, or it moves the cursor and warns if it goes back. -/
theorem carryOut_jump_cases (hw : w.Proper r) (target : Int) (tellSkip : Bool) :
    (∃ e, w.carryOut r (.jump target tellSkip) = (.error e, w) ∧
      (w.report r).numbering.jump target tellSkip = .error e) ∨
    ∃ w', w.carryOut r (.jump target tellSkip) = (.ok [], w') ∧ 0 ≤ target ∧
      (w'.report r).numbering = { (w.report r).numbering with cursor := target, started := true } ∧
      (w'.report r).warnings =
        (w.report r).warnings ++ ((w.report r).numbering.backwards? target).toList ∧
      (w'.view r).blocks = (w.view r).blocks ++ (w.view r).skipNotices target tellSkip := by
  rw [carryOut_jump]
  cases hmade : w.outcome (.jump r target tellSkip) with
  | error e =>
    rw [outcome_jump] at hmade
    cases hjump : (w.report r).numbering.jump target tellSkip with
    | error e' =>
      rw [hjump] at hmade
      cases hmade
      exact Or.inl ⟨e, rfl, rfl⟩
    | ok j =>
      rw [hjump] at hmade
      cases hmade
  | ok made => exact Or.inr ⟨made.1, rfl, Report.jump_eq_ok (view_jump hw hmade)⟩

theorem events_jump (w : Workspace) (r : ReportId) (target : Int) (tellSkip : Bool) :
    w.events r (.jump target tellSkip) = [.jump (w.report r).numbering.cursor target
      (w.carryOut r (.jump target tellSkip)).1.isOk
      (((w.carryOut r (.jump target tellSkip)).2.report r).warnings ≠ (w.report r).warnings)] := rfl

/-- **The warning of a jump is given** iff it is accepted and goes back. -/
theorem goes_jump (hw : w.Proper r) (target : Int) (tellSkip : Bool) :
    ∃ e, w.events r (.jump target tellSkip) = [e] ∧ Numbering.Goes (w.report r).numbering e
      ((w.carryOut r (.jump target tellSkip)).2.report r).numbering := by
  refine ⟨_, events_jump w r target tellSkip, ?_⟩
  obtain ⟨e, hmade, hwhy⟩ | ⟨w', hmade, htarget, hnumbering, hwarnings, -⟩ :=
    carryOut_jump_cases hw target tellSkip
  · have hsilent : decide ((w.report r).warnings ≠ (w.report r).warnings) = false := by simp
    rw [hmade, hsilent]
    exact .refused _ (Numbering.refused_of_jump hwhy)
  · have hwarned : decide ((w'.report r).warnings ≠ (w.report r).warnings) = true ↔
        (w.report r).numbering.GoesBack target := by
      rw [hwarnings, Numbering.goesBack_iff, decide_eq_true_iff, Ne, List.append_right_eq_self,
        Option.toList_eq_nil_iff, ← Ne, Option.ne_none_iff_exists']
    rw [hmade, hnumbering]
    exact .jump _ htarget hwarned

/-- **What a request makes a numbering go through.** -/
theorem replays_events (hw : w.Proper r) {q : Request} (hq : ∀ c ∈ q.contents, w.Holds c) :
    Numbering.Replays (w.report r).numbering (w.events r q)
      ((w.carryOut r q).2.report r).numbering := by
  cases hjump : q.isJump with
  | true =>
    cases q with
    | jump target tellSkip =>
      obtain ⟨e, hevents, hgoes⟩ := goes_jump hw target tellSkip
      rw [hevents]
      exact .cons hgoes (.nil _)
    | note c => cases hjump
    | line c => cases hjump
    | lines cs => cases hjump
  | false =>
    rw [events_eq hw hjump hq, (Numbers.of_carryOut hw hjump hq).numbering]
    exact .lines _ _

/-! ## Runs -/

/-- What happens to a workspace from the viewpoint of one report, and the record that this leaves of
its numbering: requests to it, and in between anything elsewhere that does not touch its numbering,
its blocks and their numbers. -/
inductive Logged (r : ReportId) (w₀ : Workspace) : List Event → Workspace → Prop
  | start : Logged r w₀ [] w₀
  | request {log : List Event} {w : Workspace} {q : Request} (h : Logged r w₀ log w)
    (hq : ∀ c ∈ q.contents, w.Holds c) : Logged r w₀ (log ++ w.events r q) (w.carryOut r q).2
  | elsewhere {log : List Event} {w w' : Workspace} (h : Logged r w₀ log w) (hw : Spares r w w') :
    Logged r w₀ log w'

/-- **The numbering of a report goes through the record of a run.** -/
theorem Logged.replays {w₀ : Workspace} {log : List Event} (h : Logged r w₀ log w)
    (hw₀ : w₀.Proper r) :
    w.Proper r ∧ Numbering.Replays (w₀.report r).numbering log (w.report r).numbering := by
  induction h with
  | start => exact ⟨hw₀, .nil _⟩
  | request _ hq ih =>
    obtain ⟨hproper, hreplays⟩ := ih
    exact ⟨(frame_carryOut hproper hq).1, hreplays.append (replays_events hproper hq)⟩
  | elsewhere _ hspares ih =>
    obtain ⟨hproper, hreplays⟩ := ih
    exact ⟨hspares.proper hproper, hspares.numbering ▸ hreplays⟩

theorem Fresh.numbering_eq (h : w.Fresh r) : (w.report r).numbering = {} := by
  obtain ⟨color, indentAll, hreport⟩ := h.report_eq
  rw [hreport]

/-- **Line numbers never decrease without a warning.** Along a run of a new report the cursor and
all numbers are at least zero, and what is appended is numbered from the cursor on, which moves on
by as much. A jump is refused only if its target is negative, or if it goes back behind a number
that is too long for a warning, or leaves out so many lines that their count is too long for a
notice; it warns iff it is accepted and goes back behind the latest number.
Of two numbers in a row the second is less only if a jump between them warned, and no greater only
if an accepted jump between them went back to the first or behind it. So without warnings the
numbers do not decrease, and where no accepted jump goes back behind the cursor they increase. -/
theorem numbering_of_run {w₀ : Workspace} {log : List Event} (hfresh : w₀.Fresh r)
    (hrun : Logged r w₀ log w) :
    (0 ≤ (w.report r).numbering.cursor ∧ ∀ n ∈ numbersOf log, 0 ≤ n) ∧
    (∀ q : Request, q.isJump = false → (∀ c ∈ q.contents, w.Holds c) →
      w.events r q = ((List.range q.lineCount).map fun i : Nat =>
        .numbered ((w.report r).numbering.cursor + i)) ∧
      ((w.carryOut r q).2.report r).numbering.cursor =
        (w.report r).numbering.cursor + q.lineCount) ∧
    (∀ before cursor target accepted warned after,
      log = before ++ .jump cursor target accepted warned :: after →
      (warned = true ↔ accepted = true ∧
        ∃ last, (numbersOf before).getLast? = some last ∧ target < last) ∧
      (accepted = true → 0 ≤ target) ∧
      (accepted = false → target < 0 ∨
        (∃ last, (numbersOf before).getLast? = some last ∧ target < last ∧
          Text.digitLimit < Text.digitCount last) ∨
        cursor + 1 < target ∧ Text.digitLimit < Text.digitCount (target - cursor))) ∧
    (∀ before p between q after,
      log = before ++ .numbered p :: (between ++ .numbered q :: after) → numbersOf between = [] →
      (q < p → ∃ cursor target, .jump cursor target true true ∈ between) ∧
      (q ≤ p → ∃ cursor target warned, .jump cursor target true warned ∈ between ∧ target ≤ p)) ∧
    ((∀ cursor target accepted, .jump cursor target accepted true ∉ log) →
      (numbersOf log).Pairwise (· ≤ ·)) ∧
    ((∀ cursor target warned, .jump cursor target true warned ∈ log → cursor ≤ target) →
      (numbersOf log).Pairwise (· < ·)) := by
  obtain ⟨hproper, hreplays⟩ := hrun.replays hfresh.proper
  rw [hfresh.numbering_eq] at hreplays
  refine ⟨hreplays.nonneg (by decide), fun q hjump hq => ⟨events_eq hproper hjump hq, ?_⟩,
    fun before cursor target accepted warned after hsplit => ?_,
    fun before p between q after hsplit hnone => ?_, fun hquiet => ?_, fun hahead => ?_⟩
  · rw [(Numbers.of_carryOut hproper hjump hq).numbering, Numbering.cursor_iterate_advance]
  · obtain ⟨n, hbefore, hafter⟩ := Numbering.Replays.split (hsplit ▸ hreplays)
    have hlast : n.last = (numbersOf before).getLast? := by
      rw [hbefore.last_eq]
      exact Option.or_none
    cases hafter with
    | cons hgoes _ =>
      cases hgoes with
      | jump htarget hwarned =>
        rw [← hlast]
        exact ⟨hwarned.trans (iff_and_self.mpr fun _ => rfl), fun _ => htarget, nofun⟩
      | refused hwhy =>
        rw [← hlast]
        exact ⟨by simp, nofun, fun _ => hwhy.imp_right fun h => h.imp_right And.right⟩
  · obtain ⟨n, -, hrest⟩ := Numbering.Replays.split (hsplit ▸ hreplays)
    obtain ⟨n₁, hp, hlater⟩ := hrest.cons_inv
    obtain ⟨n₂, hbetween, hafter⟩ := hlater.split
    obtain ⟨n₃, hq, -⟩ := hafter.cons_inv
    cases hp
    cases hq
    obtain hstay | ⟨cursor, warned, hmem, hwarned⟩ := hbetween.cursor_of_jumps hnone
    · have hnext : n₂.cursor = n.cursor + 1 := hstay
      exact ⟨fun h => by omega, fun h => by omega⟩
    · refine ⟨fun h => ⟨cursor, n₂.cursor, ?_⟩, fun h => ⟨cursor, n₂.cursor, warned, hmem, h⟩⟩
      exact hwarned.mpr ⟨n.cursor, rfl, h⟩ ▸ hmem
  · exact (hreplays.pairwise_le hquiet fun last hlast => by cases hlast).2
  · exact (hreplays.pairwise_lt hahead).2

/-- A run with a jump back that warns and one that is refused, after which a line that the report
has already gets a smaller number. -/
theorem numbering_of_run_backwards :
    let w₀ := (({ lines := [{ text := ['a'] }] } : Workspace).newReport {}).1
    let w₁ := (w₀.carryOut 0 (.jump 5 true)).2
    let w₂ := (w₁.carryOut 0 (.lines [.line 0, .text ['b']])).2
    let w₃ := (w₂.carryOut 0 (.jump 3 true)).2
    let w₄ := (w₃.carryOut 0 (.jump (-1) true)).2
    let w₅ := (w₄.carryOut 0 (.line (.line 0))).2
    let log : List Event := [.jump 1 5 true false, .numbered 5, .numbered 6, .jump 7 3 true true,
      .jump 3 (-1) false false, .numbered 3]
    w₀.Fresh 0 ∧ Logged 0 w₀ log w₅ ∧
      (w₅.view 0).blocks.map Line.number? = [some 5, some 6, some 3] ∧
      0 ≤ (w₅.report 0).numbering.cursor ∧
      ∃ cursor target,
        .jump cursor target true true ∈ [Event.jump 7 3 true true, .jump 3 (-1) false false] := by
  intro w₀ w₁ w₂ w₃ w₄ w₅ log
  have hfresh : w₀.Fresh 0 := ⟨{ lines := [{ text := ['a'] }] }, false, false, rfl⟩
  have h₁ : Logged 0 w₀ _ w₁ := .request .start (by decide)
  have h₂ : Logged 0 w₀ _ w₂ := .request h₁ (by decide)
  have h₃ : Logged 0 w₀ _ w₃ := .request h₂ (by decide)
  have h₄ : Logged 0 w₀ _ w₄ := .request h₃ (by decide)
  have h₅ : Logged 0 w₀ (_ ++ w₄.events 0 (.line (.line 0))) w₅ := .request h₄ (by decide)
  have hlog : [] ++ w₀.events 0 (.jump 5 true) ++ w₁.events 0 (.lines [.line 0, .text ['b']]) ++
      w₂.events 0 (.jump 3 true) ++ w₃.events 0 (.jump (-1) true) ++
      w₄.events 0 (.line (.line 0)) = log := by decide +kernel
  rw [hlog] at h₅
  have hlaws := numbering_of_run hfresh h₅
  refine ⟨hfresh, h₅, by decide +kernel, hlaws.1.1, ?_⟩
  exact (hlaws.2.2.2.1 [.jump 1 5 true false, .numbered 5] 6 _ 3 [] rfl rfl).1 (by decide)

end Workspace

end Marginalia
