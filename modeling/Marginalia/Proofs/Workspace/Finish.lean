import Marginalia.Proofs.Annotating
import Marginalia.Proofs.Workspace.Frame

/-!
# Finishes

Decorations and settings are looked at no earlier than when a report is shown, while numbers are
given out as lines come in. So what finishes a report, a decoration on a line or a setting of a
report, touches nothing that the building of it depends on: a line may come in and the cursor may
move before it or after it. The exception is a decoration on a line that is copied as it comes in:
before that, it is copied too.

Results:
* `Workspace.snd_finish`: what becomes of each line and each report that are given a finish.
* `Workspace.addLine_finished`, `Workspace.jump_finished` and the like: the same is built on a
  workspace with a finish on it.
* `Workspace.finished_comm`: two finishes that are not rivals come to the same in either order.
* `Workspace.fst_finish_of_contents`: whether a finish is refused depends on what its line holds.
-/

namespace Marginalia

/-- What is looked at when a report is shown, and not before: a decoration on a line, and the
settings of a report. -/
inductive Finish where
  /-- Hangs a decoration on a line. -/
  | annotate (id : LineId) (a : Annotation)
  /-- Turns the colour of a report on or off. -/
  | color (r : ReportId) (flag : Bool)
  /-- Turns the indentation of unnumbered blocks on or off. -/
  | indent (r : ReportId) (flag : Bool)
  deriving Repr

/-- What is done to a workspace that is given a finish. -/
def Finish.edit : Finish → Edit Unit
  | annotate id a => Edit.annotate id a
  | color r flag => Edit.modifyReport r fun rep => { rep with color := flag }
  | indent r flag => Edit.modifyReport r fun rep => { rep with indentAll := flag }

/-- Gives a workspace a finish, unless it is refused. -/
def Workspace.finish (w : Workspace) (f : Finish) : Except Fault Unit × Workspace :=
  f.edit.run.run w

/-! ## What a decoration depends on -/

namespace Line

variable {l l' : Line}

/-- **Whether a decoration is taken** depends on what the line holds, and the number fields stay as
they are. -/
theorem annotate_of_content_eq (h : l'.content = l.content) (a : Annotation) :
    l'.annotate a =
      (l.annotate a).map fun x => { x with numbered := l'.numbered, number := l'.number } := by
  obtain ⟨text, numbered, number, tints, underlines⟩ := l
  obtain ⟨text', numbered', number', tints', underlines'⟩ := l'
  obtain ⟨rfl, rfl, rfl⟩ : text' = text ∧ tints' = tints ∧ underlines' = underlines := by
    simpa only [content, Prod.mk.injEq] using h
  have hlocate : ∀ p : Place, locate ⟨text', numbered', number', tints', underlines'⟩ p =
      locate ⟨text', numbered, number, tints', underlines'⟩ p := fun p => by cases p <;> rfl
  cases a with
  | tint place on off =>
    rw [annotate_tint, annotate_tint, hlocate]
    cases locate _ place <;> rfl
  | underline place pen hint =>
    rw [annotate, annotate, hlocate]
    cases locate _ place with
    | error e => rfl
    | ok s =>
      simp only [bind, Except.bind]
      split <;> rfl

theorem attempt_of_content_eq (h : l'.content = l.content) (a : Annotation) :
    l'.attempt a =
      { l.attempt a with numbered := l'.numbered, number := l'.number } := by
  rw [attempt, attempt, annotate_of_content_eq h]
  cases l.annotate a with
  | ok x => rfl
  | error e =>
    obtain ⟨htext, htints, hunderlines⟩ : l'.text = l.text ∧ l'.tints = l.tints ∧
      l'.underlines = l.underlines := by simpa only [content, Prod.mk.injEq] using h
    simp only [Except.map, ← htext, ← htints, ← hunderlines]

/-- What a line holds after some decorations depends on what it held before. -/
theorem content_attemptAll {as : List Annotation} : ∀ {l l' : Line}, l'.content = l.content →
    (l'.attemptAll as).content = (l.attemptAll as).content := by
  induction as with
  | nil => exact id
  | cons a rest ih =>
    intro l l' h
    refine ih ?_
    rw [attempt_of_content_eq h]
    rfl

@[simp] theorem number_attempt (l : Line) (a : Annotation) : (l.attempt a).number = l.number := by
  have h := attempt_of_content_eq (rfl : l.content = l.content) a
  rw [h]

theorem attempt_unnumbered (l : Line) (a : Annotation) :
    l.unnumbered.attempt a = (l.attempt a).unnumbered := by
  have h : l.unnumbered.content = l.content := rfl
  rw [attempt_of_content_eq h, unnumbered, unnumbered, number_attempt]

theorem attempt_stamped (l : Line) (number : Int) (a : Annotation) :
    (l.stamped number).attempt a = (l.attempt a).stamped number := by
  have h : (l.stamped number).content = l.content := rfl
  rw [attempt_of_content_eq h, stamped, stamped]

end Line

/-! ## What a finish does to each line and to each report -/

namespace Finish

/-- The object of a finish is there. -/
def There (w : Workspace) : Finish → Prop
  | annotate id _ => id < w.lines.length
  | color r _ | indent r _ => r < w.reports.length

/-- What becomes of a line. -/
def line : Finish → LineId → Line → Line
  | annotate id a, i, l => if i = id then l.attempt a else l
  | color .., _, l | indent .., _, l => l

/-- What becomes of the colour of a report. -/
def colorOf : Finish → ReportId → Bool → Bool
  | color r flag, i, b => if i = r then flag else b
  | annotate .., _, b | indent .., _, b => b

/-- What becomes of the indentation of a report. -/
def indentOf : Finish → ReportId → Bool → Bool
  | indent r flag, i, b => if i = r then flag else b
  | annotate .., _, b | color .., _, b => b

/-- What becomes of a report. Nothing that is built up of it changes. -/
def report (f : Finish) (i : ReportId) (rep : Report LineId) : Report LineId :=
  { rep with color := f.colorOf i rep.color, indentAll := f.indentOf i rep.indentAll }

/-- Two finishes whose order may matter: decorations of one line, and settings of one flag of one
report. -/
inductive Rivals : Finish → Finish → Prop
  | annotate (id : LineId) (a b : Annotation) : Rivals (.annotate id a) (.annotate id b)
  | color (r : ReportId) (flag flag' : Bool) : Rivals (.color r flag) (.color r flag')
  | indent (r : ReportId) (flag flag' : Bool) : Rivals (.indent r flag) (.indent r flag')

theorem Rivals.symm {f g : Finish} (h : f.Rivals g) : g.Rivals f := by
  cases h with
  | annotate id a b => exact .annotate id b a
  | color r flag flag' => exact .color r flag' flag
  | indent r flag flag' => exact .indent r flag' flag

variable {w w' : Workspace} (f g : Finish) (i : Nat) (l : Line) (rep : Report LineId)

theorem line_unnumbered : f.line i l.unnumbered = (f.line i l).unnumbered := by
  cases f with
  | annotate id a =>
    simp only [line]
    split
    · exact l.attempt_unnumbered a
    · rfl
  | color | indent => rfl

theorem line_stamped (number : Int) :
    f.line i (l.stamped number) = (f.line i l).stamped number := by
  cases f with
  | annotate id a =>
    simp only [line]
    split
    · exact l.attempt_stamped number a
    · rfl
  | color | indent => rfl

/-- A line that was not there when the finish was given is left alone. -/
theorem line_of_le {f : Finish} (hf : f.There w) (hi : w.lines.length ≤ i) : f.line i l = l := by
  cases f with
  | annotate id a => exact if_neg (Nat.ne_of_gt (Nat.lt_of_lt_of_le hf hi))
  | color r flag | indent r flag => rfl

theorem There.mono {f : Finish} (hf : f.There w) (hlines : w.lines.length ≤ w'.lines.length)
    (hreports : w.reports.length ≤ w'.reports.length) : f.There w' := by
  cases f with
  | annotate id a => exact Nat.lt_of_lt_of_le hf hlines
  | color r flag | indent r flag => exact Nat.lt_of_lt_of_le hf hreports

variable {f g i l rep}

/-- A line is left alone by whatever is no rival of decorations on it. -/
theorem line_of_not_rivals {id : LineId} {a : Annotation} (h : ¬ f.Rivals (.annotate id a))
    (l : Line) : f.line id l = l := by
  cases f with
  | annotate id' b =>
    have hne : id ≠ id' := fun hid => h (hid ▸ .annotate id b a)
    exact if_neg hne
  | color r flag | indent r flag => rfl

/-- **Finishes that are not rivals** do not both change a line. -/
theorem line_comm (h : ¬ f.Rivals g) (i : LineId) (l : Line) :
    g.line i (f.line i l) = f.line i (g.line i l) := by
  cases g with
  | annotate id a =>
    by_cases hid : i = id
    · subst hid
      rw [line_of_not_rivals h, line_of_not_rivals h]
    · have hstill : ∀ l, (annotate id a).line i l = l := fun _ => if_neg hid
      rw [hstill, hstill]
  | color r flag | indent r flag => rfl

/-- Flags of two reports are turned in either order. -/
theorem turn_comm {r r' : ReportId} (h : r ≠ r') (i : ReportId) (flag flag' b : Bool) :
    (if i = r' then flag' else if i = r then flag else b) =
      if i = r then flag else if i = r' then flag' else b := by
  by_cases hi : i = r
  · rw [if_pos hi, if_pos hi, if_neg (hi ▸ h)]
  · rw [if_neg hi, if_neg hi]

/-- **Finishes that are not rivals** do not both change a flag of a report. -/
theorem report_comm (h : ¬ f.Rivals g) (i : ReportId) (rep : Report LineId) :
    g.report i (f.report i rep) = f.report i (g.report i rep) := by
  cases f with
  | annotate id a => rfl
  | color r flag =>
    cases g with
    | color r' flag' =>
      have hne : r ≠ r' := fun hr => h (hr ▸ .color r flag flag')
      simp only [report, colorOf, indentOf, turn_comm hne]
    | annotate id a | indent r' flag' => rfl
  | indent r flag =>
    cases g with
    | indent r' flag' =>
      have hne : r ≠ r' := fun hr => h (hr ▸ .indent r flag flag')
      simp only [report, colorOf, indentOf, turn_comm hne]
    | annotate id a | color r' flag' => rfl

end Finish

namespace Workspace

variable {w w' : Workspace} {r : ReportId} {id : LineId} {c : Content} {f g : Finish}

/-- The workspace with a finish on it. -/
def finished (w : Workspace) (f : Finish) : Workspace :=
  { lines := w.lines.mapIdx f.line, reports := w.reports.mapIdx f.report }

/-! ## A workspace with a finish on it -/

/-- Items that are changed each by its index, of which one is changed further. -/
theorem mapIdx_modify {α : Type} {change : Nat → α → α} {more : α → α} {i : Nat}
    (h : ∀ a, change i (more a) = more (change i a)) (items : List α) :
    (items.modify i more).mapIdx change = (items.mapIdx change).modify i more := by
  refine List.ext_getElem? fun j => ?_
  rw [List.getElem?_mapIdx, List.getElem?_modify, List.getElem?_modify, List.getElem?_mapIdx]
  cases items[j]? with
  | none => rfl
  | some a =>
    by_cases hj : i = j
    · subst hj
      simp [h]
    · simp [hj]

/-- To change one item is to change each by its index. -/
theorem modify_eq_mapIdx {α : Type} {change : Nat → α → α} {one : α → α} {i : Nat}
    {items : List α} (hself : ∀ a, items[i]? = some a → one a = change i a)
    (hothers : ∀ j ≠ i, ∀ a, change j a = a) : items.modify i one = items.mapIdx change := by
  refine List.ext_getElem? fun j => ?_
  rw [List.getElem?_mapIdx, List.getElem?_modify]
  cases hj : items[j]? with
  | none => rfl
  | some a =>
    by_cases hij : i = j
    · subst hij
      simp [hself a hj]
    · simp [hij, hothers j (Ne.symm hij)]

theorem mapIdx_eq_self {α : Type} {change : Nat → α → α} {items : List α}
    (h : ∀ i a, items[i]? = some a → change i a = a) : items.mapIdx change = items :=
  List.mapIdx_eq_iff.mpr fun i => by
    cases hi : items[i]? with
    | none => rfl
    | some a => rw [Option.map_some, h i a hi]

theorem finish_annotate (w : Workspace) (id : LineId) (a : Annotation) :
    w.finish (.annotate id a) = match (w.line id).annotate a with
      | .ok l => (.ok (), w.modifyLine id fun _ => l)
      | .error e => (.error e, w) := by
  rw [finish, Finish.edit, run_of_traceless (Edit.traceless_annotate id a), outcome_annotate]
  cases (w.line id).annotate a <;> rfl

theorem fst_finish_annotate (w : Workspace) (id : LineId) (a : Annotation) :
    (w.finish (.annotate id a)).1 = ((w.line id).annotate a).map fun _ => () := by
  rw [finish_annotate]
  cases (w.line id).annotate a <;> rfl

/-- **What becomes of a workspace** that is given a finish. -/
theorem snd_finish (w : Workspace) (f : Finish) : (w.finish f).2 = w.finished f := by
  have hreports : ∀ {f : Finish}, (∀ i b, f.colorOf i b = b) → (∀ i b, f.indentOf i b = b) →
      w.reports.mapIdx f.report = w.reports := fun hcolor hindent =>
    mapIdx_eq_self fun i rep _ => by rw [Finish.report, hcolor, hindent]
  have hlines : ∀ {f : Finish}, (∀ i l, f.line i l = l) → w.lines.mapIdx f.line = w.lines :=
    fun hline => mapIdx_eq_self fun i l _ => hline i l
  cases f with
  | annotate id a =>
    rw [finished, hreports (fun _ _ => rfl) fun _ _ => rfl, finish_annotate]
    cases hl : (w.line id).annotate a with
    | ok l =>
      show w.modifyLine id (fun _ => l) = _
      have hself : ∀ x, w.lines[id]? = some x → l = (Finish.annotate id a).line id x := by
        intro x hx
        simp only [Finish.line, if_true, ← line_of_getElem? hx, Line.attempt, hl]
      rw [modifyLine, modify_eq_mapIdx hself fun i hi x => if_neg hi]
    | error e =>
      show w = _
      have hself : ∀ i x, w.lines[i]? = some x → (Finish.annotate id a).line i x = x := by
        intro i x hx
        simp only [Finish.line]
        split
        · subst i
          rw [← line_of_getElem? hx, Line.attempt, hl]
        · rfl
      rw [mapIdx_eq_self hself]
  | color r flag | indent r flag =>
    show w.modifyReport r _ = _
    rw [finished, hlines fun _ _ => rfl, modifyReport, modify_eq_mapIdx (fun rep _ => ?_)
      fun i hi rep => ?_]
    · simp only [Finish.report, Finish.colorOf, if_true, Finish.indentOf]
    · simp only [Finish.report, Finish.colorOf, if_neg hi, Finish.indentOf]

@[simp] theorem length_lines_finished (w : Workspace) (f : Finish) :
    (w.finished f).lines.length = w.lines.length := List.length_mapIdx

@[simp] theorem length_reports_finished (w : Workspace) (f : Finish) :
    (w.finished f).reports.length = w.reports.length := List.length_mapIdx

theorem line_finished (hid : id < w.lines.length) :
    (w.finished f).line id = f.line id (w.line id) := by
  rw [line, line, finished, List.getD_eq_getElem?_getD, List.getD_eq_getElem?_getD,
    List.getElem?_mapIdx, List.getElem?_eq_getElem hid]
  rfl

/-- A line that the finish leaves alone, there or not. -/
theorem line_finished_of_still (h : ∀ l, f.line id l = l) : (w.finished f).line id = w.line id := by
  rw [line, line, finished, List.getD_eq_getElem?_getD, List.getD_eq_getElem?_getD,
    List.getElem?_mapIdx]
  cases w.lines[id]? with
  | none => rfl
  | some l => exact h l

theorem report_finished (w : Workspace) (f : Finish) (r : ReportId) :
    ((w.finished f).report r).blocks = (w.report r).blocks ∧
      ((w.finished f).report r).numbering = (w.report r).numbering := by
  rw [report, report, finished, List.getD_eq_getElem?_getD, List.getD_eq_getElem?_getD,
    List.getElem?_mapIdx]
  cases w.reports[r]? <;> exact ⟨rfl, rfl⟩

/-! ## What is built on it -/

theorem newLine_finished (hf : f.There w) (l : Line) :
    (w.finished f).newLine l = ((w.newLine l).1.finished f, w.lines.length) := by
  simp only [newLine, finished, List.length_mapIdx, List.mapIdx_concat]
  rw [Finish.line_of_le w.lines.length l hf (Nat.le_refl _)]

theorem modifyLine_finished {change : Line → Line}
    (h : ∀ l, f.line id (change l) = change (f.line id l)) :
    (w.finished f).modifyLine id change = (w.modifyLine id change).finished f := by
  simp only [modifyLine, finished, mapIdx_modify h]

theorem modifyReport_finished {change : Report LineId → Report LineId}
    (h : ∀ rep, f.report r (change rep) = change (f.report r rep)) :
    (w.finished f).modifyReport r change = (w.modifyReport r change).finished f := by
  simp only [modifyReport, finished, mapIdx_modify h]

/-- **The line for a block** is the same one, unless it is copied and the copy changes. -/
theorem blockFor_finished (hf : f.There w)
    (hcopy : ∀ i, c = .line i → i ∈ (w.report r).blocks → ∀ l, f.line i l = l) :
    (w.finished f).outcome (.blockFor r c) =
      (w.outcome (.blockFor r c)).map fun made => (made.1.finished f, made.2) := by
  rw [outcome_blockFor, outcome_blockFor]
  cases c with
  | text t =>
    simp only [newLine_finished hf]
    rfl
  | line i =>
    simp only [(report_finished w f r).1]
    split
    · rw [line_finished_of_still (hcopy i rfl ‹_›), newLine_finished hf]
      rfl
    · rfl
  | other kind => rfl

theorem append_finished {change : Line → Line} {take : Report LineId → Report LineId}
    (hchange : ∀ l, f.line id (change l) = change (f.line id l))
    (htake : ∀ rep, f.report r (take rep) = take (f.report r rep)) :
    (w.finished f).append r id change take = (w.append r id change take).finished f := by
  rw [append, append, modifyLine_finished hchange, modifyReport_finished htake]

theorem addNote_finished (hf : f.There w)
    (hcopy : ∀ i, c = .line i → i ∈ (w.report r).blocks → ∀ l, f.line i l = l) :
    (w.finished f).outcome (.addNote r c) =
      (w.outcome (.addNote r c)).map fun made => (made.1.finished f, made.2) := by
  rw [outcome_addNote, outcome_addNote, blockFor_finished hf hcopy]
  cases w.outcome (.blockFor r c) with
  | error e => rfl
  | ok made =>
    have happend : (made.1.finished f).append r made.2 Line.unnumbered (·.push made.2) =
        (made.1.append r made.2 Line.unnumbered (·.push made.2)).finished f :=
      append_finished (f.line_unnumbered made.2) fun _ => rfl
    exact congrArg (fun w => Except.ok (w, made.2)) happend

theorem addLine_finished (hf : f.There w)
    (hcopy : ∀ i, c = .line i → i ∈ (w.report r).blocks → ∀ l, f.line i l = l) :
    (w.finished f).outcome (.addLine r c) =
      (w.outcome (.addLine r c)).map fun made => (made.1.finished f, made.2) := by
  rw [outcome_addLine, outcome_addLine, blockFor_finished hf hcopy]
  cases w.outcome (.blockFor r c) with
  | error e => rfl
  | ok made =>
    let number := (made.1.report r).numbering.cursor
    have hnumber : ((made.1.finished f).report r).numbering = (made.1.report r).numbering :=
      (report_finished made.1 f r).2
    have happend :
        (made.1.finished f).append r made.2 (·.stamped number) (·.pushNumbered made.2) =
          (made.1.append r made.2 (·.stamped number) (·.pushNumbered made.2)).finished f :=
      append_finished (fun l => f.line_stamped made.2 l number) fun _ => rfl
    simp only [Except.map, hnumber]
    exact congrArg (fun w => Except.ok (w, made.2)) happend

theorem note_finished (hf : f.There w) (r : ReportId) (skipped : Option Int) :
    (w.finished f).note r skipped = (w.note r skipped).finished f := by
  cases skipped with
  | none => rfl
  | some count =>
    simp only [note]
    rw [newLine_finished hf, length_lines_finished]
    exact modifyReport_finished fun _ => rfl

theorem jump_finished (hf : f.There w) (r : ReportId) (target : Int) (tellSkip : Bool) :
    (w.finished f).outcome (.jump r target tellSkip) =
      (w.outcome (.jump r target tellSkip)).map fun made => (made.1.finished f, made.2) := by
  rw [outcome_jump, outcome_jump, (report_finished w f r).2]
  cases (w.report r).numbering.jump target tellSkip with
  | error e => rfl
  | ok j =>
    have hnote : ((w.finished f).note r j.skipped).modifyReport r (·.follow j) =
        ((w.note r j.skipped).modifyReport r (·.follow j)).finished f := by
      rw [note_finished hf]
      exact modifyReport_finished fun _ => rfl
    exact congrArg (fun w => Except.ok (w, j.warning)) hnote

/-! ## When it is refused -/

/-- Whether a finish is refused depends on what the lines hold. -/
theorem fst_finish_of_contents (hf : f.There w)
    (h : ∀ id < w.lines.length, (w'.line id).content = (w.line id).content) :
    (w'.finish f).1 = (w.finish f).1 := by
  cases f with
  | annotate id a =>
    rw [fst_finish_annotate, fst_finish_annotate, Line.annotate_of_content_eq (h id hf)]
    cases (w.line id).annotate a <;> rfl
  | color r flag | indent r flag => rfl

/-! ## Before and after another finish -/

theorem fst_finish_finished (h : ¬ f.Rivals g) : ((w.finished f).finish g).1 = (w.finish g).1 := by
  cases g with
  | annotate id a =>
    rw [fst_finish_annotate, fst_finish_annotate,
      line_finished_of_still (Finish.line_of_not_rivals h)]
  | color r flag | indent r flag => rfl

/-- **Two finishes that are not rivals** come to the same in either order. -/
theorem finished_comm (h : ¬ f.Rivals g) :
    (w.finished f).finished g = (w.finished g).finished f := by
  have hlines : (fun i => g.line i ∘ f.line i) = fun i => f.line i ∘ g.line i :=
    funext fun i => funext fun l => Finish.line_comm h i l
  have hreports : (fun i => g.report i ∘ f.report i) = fun i => f.report i ∘ g.report i :=
    funext fun i => funext fun rep => Finish.report_comm h i rep
  rw [finished, finished, finished, finished]
  simp only [List.mapIdx_mapIdx, hlines, hreports]

/-! ## What is kept -/

/-- The blocks of a report are as distinct with a finish as without. -/
theorem sound_finished (hw : w.Sound) : (w.finished f).Sound := by
  intro r hr
  rw [length_reports_finished] at hr
  have hblocks := (report_finished w f r).1
  refine ⟨(length_reports_finished w f).symm ▸ hr, ?_, hblocks ▸ (hw r hr).nodup⟩
  rw [hblocks, length_lines_finished]
  exact (hw r hr).lines

end Workspace

end Marginalia
