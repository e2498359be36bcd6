import Marginalia.Proofs.Workspace.Requests

/-!
# What a request leaves alone

Lines are shared: a report may be asked to take in a line that another report has, or one that it
has already. What a request touches is no more than the report itself and, of the lines that were
there, the number fields of those that were handed over and were no blocks of the report yet
(`Workspace.Frame`). That its blocks keep their identity and their numbers follows from this.

Results:
* `Workspace.frame_carryOut`: the frame of a request.
* `Workspace.takesAll_carryOut`: what the contents of a request are taken in as.
* `Workspace.blocks_of_turns`: the blocks of all reports along a run.
-/

namespace Marginalia

/-- All that a line holds besides its number. -/
def Line.content (l : Line) : Text × List Tint × List Underline := (l.text, l.tints, l.underlines)

namespace Workspace

variable {w w₁ w₂ w' : Workspace} {r : ReportId} {id : LineId} {c : Content}

/-- The line that a content stands for. -/
def given (w : Workspace) : Content → Line
  | .line id => w.line id
  | .text t => { text := t }
  | .other _ => { text := [] }

/-- What a change leaves alone that concerns one report, to which some contents are handed over. The
other reports stay as they are, and this one keeps its blocks. No line is lost, none changes in what
it holds, and a line that changes was handed over and was no block of the report. -/
structure Frame (r : ReportId) (cs : List Content) (w w' : Workspace) : Prop where
  reports : w'.reports.length = w.reports.length
  others : ∀ i ≠ r, w'.report i = w.report i
  blocks : (w.report r).blocks <+: (w'.report r).blocks
  kept : ∀ id ∈ (w.report r).blocks, w'.line id = w.line id
  lines : w.lines.length ≤ w'.lines.length
  contents : ∀ id < w.lines.length, (w'.line id).content = (w.line id).content
  touched : ∀ id < w.lines.length, w'.line id ≠ w.line id →
    .line id ∈ cs ∧ id ∉ (w.report r).blocks

namespace Frame

variable {cs cs' : List Content}

theorem refl (r : ReportId) (cs : List Content) (w : Workspace) : Frame r cs w w where
  reports := rfl
  others := fun _ _ => rfl
  blocks := List.prefix_refl _
  kept := fun _ _ => rfl
  lines := Nat.le_refl _
  contents := fun _ _ => rfl
  touched := fun _ _ hne => absurd rfl hne

theorem trans (h : Frame r cs w w₁) (h' : Frame r cs' w₁ w₂) : Frame r (cs ++ cs') w w₂ where
  reports := h'.reports.trans h.reports
  others := fun i hi => (h'.others i hi).trans (h.others i hi)
  blocks := h.blocks.trans h'.blocks
  kept := fun id hid => (h'.kept id (h.blocks.subset hid)).trans (h.kept id hid)
  lines := Nat.le_trans h.lines h'.lines
  contents := fun id hid =>
    (h'.contents id (Nat.lt_of_lt_of_le hid h.lines)).trans (h.contents id hid)
  touched := by
    intro id hid hne
    by_cases hfirst : w₁.line id = w.line id
    · have hlater := h'.touched id (Nat.lt_of_lt_of_le hid h.lines) (hfirst ▸ hne)
      exact ⟨List.mem_append_right cs hlater.1, fun hmem => hlater.2 (h.blocks.subset hmem)⟩
    · have hnow := h.touched id hid hfirst
      exact ⟨List.mem_append_left cs' hnow.1, hnow.2⟩

/-- The blocks of all reports stay distinct if those of the one concerned do. -/
theorem proper (h : Frame r cs w w') (hr : w'.Proper r) {i : ReportId} (hi : w.Proper i) :
    w'.Proper i := by
  by_cases hir : i = r
  · exact hir ▸ hr
  · refine ⟨h.reports ▸ hi.report, ?_, ?_⟩
    · rw [h.others i hir]
      exact fun id hid => Nat.lt_of_lt_of_le (hi.lines id hid) h.lines
    · rw [h.others i hir]
      exact hi.nodup

/-- **A request to another report happens elsewhere** if no block is handed over with it. -/
theorem spares (h : Frame r cs w w') {i : ReportId} (hi : w.Proper i) (hir : i ≠ r)
    (hcs : ∀ id ∈ (w.report i).blocks, .line id ∉ cs) : Spares i w w' where
  reports := Nat.le_of_eq h.reports.symm
  lines := h.lines
  numbering := by rw [h.others i hir]
  warnings := by rw [h.others i hir]
  blocks := by rw [h.others i hir]
  stamps := by
    intro id hid
    have hsame : w'.line id = w.line id := Decidable.byContradiction fun hne =>
      hcs id hid (h.touched id (hi.lines id hid) hne).1
    rw [hsame]

end Frame

/-! ## The frame of a request -/

/-- What a report changes about itself alone. -/
theorem frame_modifyReport (hr : r < w.reports.length) {f : Report LineId → Report LineId}
    (hblocks : (w.report r).blocks <+: (f (w.report r)).blocks) (cs : List Content) :
    Frame r cs w (w.modifyReport r f) where
  reports := length_reports_modifyReport f
  others := fun _ hi => report_modifyReport_ne hi f
  blocks := by
    rw [report_modifyReport hr]
    exact hblocks
  kept := fun _ _ => rfl
  lines := Nat.le_refl _
  contents := fun _ _ => rfl
  touched := fun _ _ hne => absurd rfl hne

/-- **A block is appended**: a line that is new, or that was handed over and is no block yet, is
changed, and not in what it holds. -/
theorem frame_append {cs : List Content} {f : Line → Line} {take : Report LineId → Report LineId}
    (hw : w.Proper r) (hext : Extends w w₁) (hfresh : id ∉ (w.report r).blocks)
    (hgiven : id < w.lines.length → .line id ∈ cs) (hf : ∀ l, (f l).content = l.content)
    (htake : (take (w.report r)).blocks = (w.report r).blocks ++ [id]) :
    Frame r cs w (w₁.append r id f take) := by
  have hline : ∀ i < w.lines.length, i ≠ id → (w₁.append r id f take).line i = w.line i :=
    fun i hi hid => (line_modifyLine_ne hid f).trans (hext.lines i hi)
  have hr : r < (w₁.modifyLine id f).reports.length := hext.reports ▸ hw.report
  refine ⟨?_, fun i hi => ?_, ?_, fun i hi => ?_, ?_, fun i hi => ?_, fun i hi hne => ?_⟩
  · exact (length_reports_modifyReport take).trans (congrArg List.length hext.reports)
  · exact (report_modifyReport_ne hi take).trans (hext.report_eq i)
  · have hreport : (w₁.append r id f take).report r = take (w.report r) :=
      (report_modifyReport hr take).trans (congrArg take (hext.report_eq r))
    rw [hreport, htake]
    exact List.prefix_append _ _
  · exact hline i (hw.lines i hi) (ne_of_mem_of_not_mem hi hfresh)
  · exact length_append (w := w₁) ▸ hext.length
  · by_cases hid : i = id
    · subst hid
      have hself : (w₁.append r i f take).line i = f (w₁.line i) :=
        line_modifyLine_self (Nat.lt_of_lt_of_le hi hext.length) f
      rw [hself, hf, hext.lines i hi]
    · rw [hline i hi hid]
  · have hid : i = id := Decidable.byContradiction fun hid => hne (hline i hi hid)
    exact ⟨hid ▸ hgiven (hid ▸ hi), hid ▸ hfresh⟩

/-- What the line for a block is: the one that was handed over if this is no block yet, and else a
new one that holds the same. -/
theorem blockFor_eq_ok (h : w.outcome (.blockFor r c) = .ok (w₁, id)) :
    (c = .line id ∧ id ∉ (w.report r).blocks ∧ w₁ = w) ∨
      (w.newLine (w.given c) = (w₁, id) ∧ ∀ i, c = .line i → i ∈ (w.report r).blocks) := by
  cases c with
  | text t =>
    cases h
    exact Or.inr ⟨rfl, fun i hi => by cases hi⟩
  | line i =>
    rw [outcome_blockFor, Except.ok.injEq] at h
    split at h
    · cases h
      exact Or.inr ⟨rfl, fun j hj => by cases hj; assumption⟩
    · cases h
      exact Or.inl ⟨rfl, ‹_›, rfl⟩
  | other kind => cases h

/-- A line that was there and becomes a block is the one that was handed over. -/
theorem eq_line_of_blockFor (h : w.outcome (.blockFor r c) = .ok (w₁, id))
    (hid : id < w.lines.length) : c = .line id := by
  obtain ⟨hc, -⟩ | ⟨hnew, -⟩ := blockFor_eq_ok h
  · exact hc
  · cases hnew
    exact absurd hid (Nat.lt_irrefl _)

theorem frame_addNote (hw : w.Proper r) (hc : w.Holds c)
    (h : w.outcome (.addNote r c) = .ok (w', id)) : Frame r [c] w w' := by
  obtain ⟨w₁, hmade, rfl⟩ := addNote_eq_ok h
  obtain ⟨hext, -, hfresh⟩ := blockFor_spec hw hc hmade
  exact frame_append hw hext hfresh (fun hid => by simp [eq_line_of_blockFor hmade hid])
    (fun _ => rfl) rfl

theorem frame_addLine (hw : w.Proper r) (hc : w.Holds c)
    (h : w.outcome (.addLine r c) = .ok (w', id)) : Frame r [c] w w' := by
  obtain ⟨w₁, hmade, rfl⟩ := addLine_eq_ok h
  obtain ⟨hext, -, hfresh⟩ := blockFor_spec hw hc hmade
  exact frame_append hw hext hfresh (fun hid => by simp [eq_line_of_blockFor hmade hid])
    (fun _ => rfl) rfl

theorem frame_note (hw : w.Proper r) (skipped : Option Int) : Frame r [] w (w.note r skipped) := by
  cases skipped with
  | none => exact Frame.refl r [] w
  | some count =>
    rw [note_some]
    exact frame_append hw (extends_newLine w _) (fun hmem => Nat.lt_irrefl _ (hw.lines _ hmem))
      (fun hid => absurd hid (Nat.lt_irrefl _)) (fun _ => rfl) rfl

theorem frame_jump {target : Int} {tellSkip : Bool} {b : Option Backwards} (hw : w.Proper r)
    (h : w.outcome (.jump r target tellSkip) = .ok (w', b)) : Frame r [] w w' := by
  obtain ⟨j, -, rfl, -⟩ := jump_eq_ok h
  have hnote := (note_spec hw j.skipped).1.report
  exact (frame_note hw j.skipped).trans (frame_modifyReport hnote (List.prefix_refl _) [])

/-- A content that is there stays there. -/
theorem Holds.mono (hc : w.Holds c) (h : w.lines.length ≤ w'.lines.length) : w'.Holds c :=
  fun id hid => Nat.lt_of_lt_of_le (hc id hid) h

theorem frame_lines {cs : List Content} : ∀ {w : Workspace}, w.Proper r →
    (∀ c ∈ cs, w.Holds c) → (w.carryOut r (.lines cs)).2.Proper r ∧
      Frame r cs w (w.carryOut r (.lines cs)).2 := by
  induction cs with
  | nil => exact fun hw _ => ⟨hw, Frame.refl r [] _⟩
  | cons c rest ih =>
    intro w hw hcs
    rw [carryOut_lines_cons]
    cases hmade : w.outcome (.addLine r c) with
    | error e => exact ⟨hw, Frame.refl r (c :: rest) w⟩
    | ok made =>
      have hc := hcs c List.mem_cons_self
      have hfirst := frame_addLine hw hc hmade
      obtain ⟨hproper, hrest⟩ := ih (hw.addLine hc hmade)
        fun c hmem => (hcs c (List.mem_cons_of_mem _ hmem)).mono hfirst.lines
      exact ⟨hproper, hfirst.trans hrest⟩

/-- **The frame of a request**, whether or not it is refused. The blocks of its report stay
distinct. -/
theorem frame_carryOut (hw : w.Proper r) {q : Request} (hq : ∀ c ∈ q.contents, w.Holds c) :
    (w.carryOut r q).2.Proper r ∧ Frame r q.contents w (w.carryOut r q).2 := by
  cases q with
  | jump target tellSkip =>
    rw [carryOut_jump]
    cases hmade : w.outcome (.jump r target tellSkip) with
    | error e => exact ⟨hw, Frame.refl r [] w⟩
    | ok made => exact ⟨hw.jump hmade, frame_jump hw hmade⟩
  | note c =>
    rw [carryOut_note]
    cases hmade : w.outcome (.addNote r c) with
    | error e => exact ⟨hw, Frame.refl r [c] w⟩
    | ok made =>
      have hc := hq c List.mem_cons_self
      exact ⟨hw.addNote hc hmade, frame_addNote hw hc hmade⟩
  | line c =>
    rw [carryOut_line]
    cases hmade : w.outcome (.addLine r c) with
    | error e => exact ⟨hw, Frame.refl r [c] w⟩
    | ok made =>
      have hc := hq c List.mem_cons_self
      exact ⟨hw.addLine hc hmade, frame_addLine hw hc hmade⟩
  | lines cs => exact frame_lines hw hq

/-! ## What contents are taken in as -/

/-- What a content is taken in as by a report that has certain blocks by then: the very line that
was handed over iff that is none of them, and a new one otherwise. It holds what the content does.
-/
structure TakesIn (w w' : Workspace) (present : List LineId) (c : Content) (id : LineId) :
    Prop where
  itself : c = .line id ↔ ∃ i, c = .line i ∧ i ∉ present
  new : c ≠ .line id → w.lines.length ≤ id
  content : (w'.line id).content = (w.given c).content

/-- What contents are taken in as, one after the other, and the numbers that they get. -/
structure TakesAll (r : ReportId) (cs : List Content) (number : Nat → Option Int)
    (w w' : Workspace) (ids : List LineId) : Prop where
  length : ids.length = cs.length
  blocks : (w'.report r).blocks = (w.report r).blocks ++ ids
  each : ∀ i c id, cs[i]? = some c → ids[i]? = some id →
    TakesIn w w' ((w.report r).blocks ++ ids.take i) c id ∧ (w'.line id).number? = number i

theorem takesAll_append {f : Line → Line} {take : Report LineId → Report LineId}
    {number : Nat → Option Int} (hw : w.Proper r) (hc : w.Holds c)
    (hmade : w.outcome (.blockFor r c) = .ok (w₁, id)) (hf : ∀ l, (f l).content = l.content)
    (hnumber : ∀ l, (f l).number? = number 0)
    (htake : (take (w.report r)).blocks = (w.report r).blocks ++ [id]) :
    TakesAll r [c] number w (w₁.append r id f take) [id] := by
  obtain ⟨hext, hid, hfresh⟩ := blockFor_spec hw hc hmade
  have hself : (w₁.append r id f take).line id = f (w₁.line id) := line_modifyLine_self hid f
  have hreport : (w₁.append r id f take).report r = take (w.report r) :=
    (report_modifyReport (w := w₁.modifyLine id f) (hext.reports ▸ hw.report) take).trans
      (congrArg take (hext.report_eq r))
  have htaken : TakesIn w (w₁.append r id f take) (w.report r).blocks c id := by
    obtain ⟨hsame, -, hw₁⟩ | ⟨hnew, hpresent⟩ := blockFor_eq_ok hmade
    · refine ⟨⟨fun _ => ⟨id, hsame, hfresh⟩, fun _ => hsame⟩, fun hne => absurd hsame hne, ?_⟩
      rw [hself, hf, hw₁, hsame]
      rfl
    · have hid : w.lines.length = id := congrArg Prod.snd hnew
      have hspace : (w.newLine (w.given c)).1 = w₁ := congrArg Prod.fst hnew
      have hline : w₁.line id = w.given c := by
        rw [← hid, ← hspace]
        simp [newLine, line]
      refine ⟨⟨fun hsame => absurd (hpresent id hsame) hfresh, ?_⟩, fun _ => Nat.le_of_eq hid, ?_⟩
      · rintro ⟨i, hi, hnot⟩
        exact absurd (hpresent i hi) hnot
      · rw [hself, hf, hline]
  refine ⟨rfl, by rw [hreport, htake], fun i c' id' hc' hid' => ?_⟩
  cases i with
  | zero =>
    cases hc'
    cases hid'
    rw [List.take_zero, List.append_nil, hself]
    exact ⟨htaken, hnumber _⟩
  | succ i => cases hc'

theorem takesAll_addNote (hw : w.Proper r) (hc : w.Holds c)
    (h : w.outcome (.addNote r c) = .ok (w', id)) :
    TakesAll r [c] (fun _ => none) w w' [id] := by
  obtain ⟨w₁, hmade, rfl⟩ := addNote_eq_ok h
  exact takesAll_append hw hc hmade (fun _ => rfl) (fun _ => rfl) rfl

theorem takesAll_addLine (hw : w.Proper r) (hc : w.Holds c)
    (h : w.outcome (.addLine r c) = .ok (w', id)) :
    TakesAll r [c] (fun i => some ((w.report r).numbering.cursor + i)) w w' [id] := by
  obtain ⟨w₁, hmade, rfl⟩ := addLine_eq_ok h
  exact takesAll_append hw hc hmade (fun _ => rfl) (fun _ => by simp [Line.stamped, Line.number?])
    rfl

/-- A numbered line moves the cursor on by one. -/
theorem cursor_addLine (hw : w.Proper r) (hc : w.Holds c)
    (h : w.outcome (.addLine r c) = .ok (w', id)) :
    (w'.report r).numbering = (w.report r).numbering.advance := by
  obtain ⟨l, hview⟩ := view_addLine hw hc h
  exact congrArg Report.numbering hview

/-- One content more in front. -/
theorem TakesAll.cons {cs : List Content} {number : Nat → Option Int} {ids : List LineId}
    (h : TakesAll r [c] number w w₁ [id]) (h' : TakesAll r cs (number ∘ Nat.succ) w₁ w₂ ids)
    (hframe : Frame r [c] w w₁) (hframe' : Frame r cs w₁ w₂) (hcs : ∀ c ∈ cs, w.Holds c) :
    TakesAll r (c :: cs) number w w₂ (id :: ids) := by
  have hblocks : (w₁.report r).blocks = (w.report r).blocks ++ [id] := h.blocks
  refine ⟨congrArg (· + 1) h'.length, ?_, fun i c' id' hc' hid' => ?_⟩
  · rw [h'.blocks, hblocks, List.append_assoc, List.singleton_append]
  · cases i with
    | zero =>
      cases hc'
      cases hid'
      have hkept := hframe'.kept id (by simp [hblocks])
      obtain ⟨htaken, hnumber⟩ := h.each 0 c id rfl rfl
      exact ⟨⟨htaken.itself, htaken.new, hkept ▸ htaken.content⟩, hkept ▸ hnumber⟩
    | succ i =>
      obtain ⟨htaken, hnumber⟩ := h'.each i c' id' hc' hid'
      rw [hblocks, List.append_assoc, List.singleton_append] at htaken
      refine ⟨⟨htaken.itself, fun hne => Nat.le_trans hframe.lines (htaken.new hne), ?_⟩, hnumber⟩
      rw [htaken.content]
      cases c' with
      | line j => exact hframe.contents j (hcs _ (List.mem_of_getElem? hc') j rfl)
      | text t => rfl
      | other kind => rfl

theorem takesAll_lines {cs : List Content} : ∀ {w : Workspace}, w.Proper r →
    (∀ c ∈ cs, w.Holds c) → ∀ ids, (w.carryOut r (.lines cs)).1 = .ok ids →
    TakesAll r cs (fun i => some ((w.report r).numbering.cursor + i)) w
      (w.carryOut r (.lines cs)).2 ids := by
  induction cs with
  | nil =>
    intro w _ _ ids hids
    cases hids
    exact ⟨rfl, (List.append_nil _).symm, fun i c id hc => by cases hc⟩
  | cons c rest ih =>
    intro w hw hcs ids hids
    obtain ⟨w₁, id, ids', hmade, hids', rfl, hspace⟩ := carryOut_lines_cons_eq_ok hids
    have hc := hcs c List.mem_cons_self
    have hrest : ∀ c ∈ rest, w.Holds c := fun c hmem => hcs c (List.mem_cons_of_mem _ hmem)
    have hframe := frame_addLine hw hc hmade
    have hproper := hw.addLine hc hmade
    have hrest' : ∀ c ∈ rest, w₁.Holds c := fun c hmem => (hrest c hmem).mono hframe.lines
    have hlater := ih hproper hrest' ids' hids'
    have hnumber : (fun i : Nat => some ((w₁.report r).numbering.cursor + i)) =
        (fun i : Nat => some ((w.report r).numbering.cursor + i)) ∘ Nat.succ := by
      funext i
      rw [cursor_addLine hw hc hmade]
      simp only [Numbering.advance, Function.comp_apply, Option.some.injEq]
      omega
    rw [hnumber] at hlater
    rw [hspace]
    exact (takesAll_addLine hw hc hmade).cons hlater hframe (frame_lines hproper hrest').2 hrest

theorem takesAll_carryOut (hw : w.Proper r) {q : Request} (hjump : q.isJump = false)
    (hq : ∀ c ∈ q.contents, w.Holds c) {ids : List LineId} (hids : (w.carryOut r q).1 = .ok ids) :
    TakesAll r q.contents (q.number (w.report r).numbering.cursor) w (w.carryOut r q).2 ids := by
  cases q with
  | jump target tellSkip => cases hjump
  | note c =>
    rw [carryOut_note] at hids ⊢
    cases hmade : w.outcome (.addNote r c) with
    | error e =>
      rw [hmade] at hids
      cases hids
    | ok made =>
      rw [hmade] at hids
      cases hids
      exact takesAll_addNote hw (hq c List.mem_cons_self) hmade
  | line c =>
    rw [carryOut_line] at hids ⊢
    cases hmade : w.outcome (.addLine r c) with
    | error e =>
      rw [hmade] at hids
      cases hids
    | ok made =>
      rw [hmade] at hids
      cases hids
      exact takesAll_addLine hw (hq c List.mem_cons_self) hmade
  | lines cs => exact takesAll_lines hw hq ids hids

/-- What a request appended is there. -/
theorem lt_of_mem_appended (hw : w.Proper r) {q : Request} (hq : ∀ c ∈ q.contents, w.Holds c) :
    ∀ id ∈ (w.carryOut r q).1.toOption.getD [], id < (w.carryOut r q).2.lines.length := by
  intro id hid
  cases hids : (w.carryOut r q).1 with
  | error e =>
    rw [hids] at hid
    cases hid
  | ok ids =>
    rw [hids] at hid
    have hproper := (frame_carryOut hw hq).1
    cases hjump : q.isJump with
    | false =>
      refine hproper.lines id ?_
      rw [(takesAll_carryOut hw hjump hq hids).blocks]
      exact List.mem_append_right _ hid
    | true =>
      cases q with
      | jump target tellSkip =>
        rw [carryOut_jump] at hids
        split at hids
        · cases hids
          cases hid
        · cases hids
      | note | line | lines => cases hjump

/-! ## Runs -/

/-- All reports have distinct blocks that are there. -/
def Sound (w : Workspace) : Prop := ∀ r < w.reports.length, w.Proper r

theorem sound_of_blank (h : ∀ rep ∈ w.reports, rep.blocks = []) : w.Sound := by
  intro r hr
  have hblank : (w.report r).blocks = [] := by
    rw [report, List.getD_eq_getElem?_getD, List.getElem?_eq_getElem hr]
    exact h _ (List.getElem_mem hr)
  exact ⟨hr, by simp [hblank], by simp [hblank]⟩

/-- What happens to a workspace: a request to any of its reports, a new line or a new report. -/
inductive Turn : Workspace → Workspace → Prop
  | request {w : Workspace} {r : ReportId} {q : Request} (hr : r < w.reports.length)
    (hq : ∀ c ∈ q.contents, w.Holds c) : Turn w (w.carryOut r q).2
  | newLine (w : Workspace) (l : Line) : Turn w (w.newLine l).1
  | newReport (w : Workspace) (color indentAll : Bool) :
    Turn w (w.newReport { color := color, indentAll := indentAll }).1

/-- What happens from the viewpoint of one report: a request to it, or anything elsewhere that does
not touch its numbering, its blocks and their numbers. -/
inductive Deed (r : ReportId) : Workspace → Workspace → Prop
  | request {w : Workspace} {q : Request} (hq : ∀ c ∈ q.contents, w.Holds c) :
    Deed r w (w.carryOut r q).2
  | elsewhere {w w' : Workspace} (h : Spares r w w') : Deed r w w'

/-- A report more, with distinct blocks that are there. -/
theorem Sound.newReport (hw : w.Sound) {rep : Report LineId}
    (hlines : ∀ id ∈ rep.blocks, id < w.lines.length) (hnodup : rep.blocks.Nodup) :
    (w.newReport rep).1.Sound := by
  intro i hi
  have hlast := hi
  rw [Workspace.newReport, List.length_append, List.length_singleton] at hlast
  by_cases hlt : i < w.reports.length
  · have hreport : (w.newReport rep).1.report i = w.report i := by
      simp [Workspace.newReport, report, List.getElem?_append_left hlt]
    exact ⟨hi, hreport ▸ (hw i hlt).lines, hreport ▸ (hw i hlt).nodup⟩
  · obtain rfl : i = w.reports.length := by omega
    have hreport : (w.newReport rep).1.report w.reports.length = rep := by
      simp [Workspace.newReport, report]
    exact ⟨hi, hreport.symm ▸ hlines, hreport.symm ▸ hnodup⟩

theorem Sound.turn (hw : w.Sound) (h : Turn w w') : w'.Sound := by
  cases h with
  | @request r q hr hq =>
    obtain ⟨hproper, hframe⟩ := frame_carryOut (hw r hr) hq
    exact fun i hi => hframe.proper hproper (hw i (hframe.reports ▸ hi))
  | newLine l => exact fun i hi => (extends_newLine w l).proper (hw i hi)
  | newReport color indentAll => exact hw.newReport (by simp) List.nodup_nil

theorem Sound.turns (hw : w.Sound) (h : Relation.ReflTransGen Turn w w') : w'.Sound := by
  induction h with
  | refl => exact hw
  | tail _ hturn ih => exact ih.turn hturn

/-- A report keeps its blocks and their numbers. -/
theorem Deed.keeps (h : Deed r w w') (hw : w.Proper r) :
    w'.Proper r ∧ (w.report r).blocks <+: (w'.report r).blocks ∧
      ∀ id ∈ (w.report r).blocks, (w'.line id).number? = (w.line id).number? := by
  cases h with
  | request hq =>
    obtain ⟨hproper, hframe⟩ := frame_carryOut hw hq
    exact ⟨hproper, hframe.blocks, fun id hid => by rw [hframe.kept id hid]⟩
  | elsewhere h => exact ⟨h.proper hw, h.blocks ▸ List.prefix_refl _, h.stamps⟩

theorem keeps_of_deeds (h : Relation.ReflTransGen (Deed r) w w') (hw : w.Proper r) :
    w'.Proper r ∧ (w.report r).blocks <+: (w'.report r).blocks ∧
      ∀ id ∈ (w.report r).blocks, (w'.line id).number? = (w.line id).number? := by
  induction h with
  | refl => exact ⟨hw, List.prefix_refl _, fun _ _ => rfl⟩
  | tail _ hdeed ih =>
    obtain ⟨hproper, hblocks, hstamps⟩ := ih
    obtain ⟨hproper', hblocks', hstamps'⟩ := hdeed.keeps hproper
    exact ⟨hproper', hblocks.trans hblocks', fun id hid =>
      (hstamps' id (hblocks.subset hid)).trans (hstamps id hid)⟩

/-- **Blocks keep their identity, and the number that they were appended with.** At every point of a
run over reports that share lines, the blocks of each report are distinct. A request to a report
touches no more than its frame. One that hands contents over is refused iff something of it is no
content; otherwise each content is taken in as the very line that was handed over iff that is a line
which is no block by then, and as a new one that holds the same otherwise, and is numbered from the
cursor on if it is to be numbered at all. As long as nobody else numbers them, the blocks of a
report keep their places and their numbers. -/
theorem blocks_of_turns {w₀ w : Workspace} (hw₀ : w₀.Sound)
    (hrun : Relation.ReflTransGen Turn w₀ w) :
    (∀ r < w.reports.length, (w.report r).blocks.Nodup) ∧
    (∀ r < w.reports.length, ∀ q : Request, (∀ c ∈ q.contents, w.Holds c) →
      Frame r q.contents w (w.carryOut r q).2 ∧
      (q.isJump = false →
        ((∃ e, (w.carryOut r q).1 = .error e) ↔ ∃ kind, .other kind ∈ q.contents) ∧
        ∀ ids, (w.carryOut r q).1 = .ok ids →
          TakesAll r q.contents (q.number (w.report r).numbering.cursor) w
            (w.carryOut r q).2 ids)) ∧
    ∀ r < w.reports.length, ∀ w', Relation.ReflTransGen (Deed r) w w' →
      ∀ (i : Nat) (id : LineId), (w.report r).blocks[i]? = some id →
        (w'.report r).blocks[i]? = some id ∧ (w'.line id).number? = (w.line id).number? := by
  have hw : w.Sound := hw₀.turns hrun
  refine ⟨fun r hr => (hw r hr).nodup, fun r hr q hq => ?_, fun r hr w' hdeeds i id hid => ?_⟩
  · exact ⟨(frame_carryOut (hw r hr) hq).2, fun hjump =>
      ⟨carryOut_eq_error_iff w r hjump, fun ids hids => takesAll_carryOut (hw r hr) hjump hq hids⟩⟩
  · obtain ⟨-, ⟨new, hnew⟩, hstamps⟩ := keeps_of_deeds hdeeds (hw r hr)
    have hi := (List.getElem?_eq_some_iff.mp hid).1
    refine ⟨?_, hstamps id (List.mem_of_getElem? hid)⟩
    rw [← hnew, List.getElem?_append_left hi, hid]

/-- Two reports share a line, which one of them is handed twice in one request while the other has
it for a block already. -/
theorem blocks_of_turns_shared_line :
    let shared : Line := { text := ['a'], underlines := [{ start := 0, stop := 1 }] }
    let w₀ : Workspace := { lines := [shared], reports := [{}, {}] }
    let w₁ := (w₀.carryOut 1 (.line (.line 0))).2
    let q : Request := .lines [.line 0, .line 0, .text ['b']]
    let w₂ := (w₁.carryOut 0 q).2
    let w₃ := (w₂.carryOut 1 (.note (.text ['n']))).2
    (w₀.Sound ∧ Relation.ReflTransGen Turn w₀ w₁ ∧ Relation.ReflTransGen Turn w₀ w₂ ∧
      Relation.ReflTransGen (Deed 0) w₂ w₃) ∧
    ((w₁.carryOut 0 q).1 = .ok [0, 1, 2] ∧ (w₁.report 1).blocks = [0] ∧
      (w₂.report 0).blocks = [0, 1, 2] ∧ (w₂.line 1).number? = some 2) ∧
    Frame 0 q.contents w₁ w₂ ∧
    TakesAll 0 q.contents (q.number 1) w₁ w₂ [0, 1, 2] ∧
    (w₃.report 0).blocks[1]? = some 1 ∧ (w₃.line 1).number? = (w₂.line 1).number? := by
  intro shared w₀ w₁ q w₂ w₃
  have hsound : w₀.Sound := sound_of_blank (by decide)
  have hq : ∀ c ∈ q.contents, w₁.Holds c := by decide
  have hturn₁ : Turn w₀ w₁ := .request (by decide) (by decide)
  have hturn₂ : Turn w₁ w₂ := .request (by decide) hq
  have hrun₁ : Relation.ReflTransGen Turn w₀ w₁ := .single hturn₁
  have hrun₂ : Relation.ReflTransGen Turn w₀ w₂ := hrun₁.tail hturn₂
  have hsound₂ : w₂.Sound := hsound.turns hrun₂
  have hnote : Frame 1 [.text ['n']] w₂ w₃ :=
    (@frame_carryOut w₂ 1 (hsound₂ 1 (by decide)) (.note (.text ['n'])) (by decide)).2
  have hspares : Spares 0 w₂ w₃ := hnote.spares (hsound₂ 0 (by decide)) (by decide) (by simp)
  have hdeeds : Relation.ReflTransGen (Deed 0) w₂ w₃ := .single (.elsewhere hspares)
  obtain ⟨hframe, htakes⟩ := (blocks_of_turns hsound hrun₁).2.1 0 (by decide) q hq
  have hkeeps := (blocks_of_turns hsound hrun₂).2.2 0 (by decide) w₃ hdeeds 1 1 rfl
  exact ⟨⟨hsound, hrun₁, hrun₂, hdeeds⟩, ⟨rfl, rfl, rfl, rfl⟩, hframe, (htakes rfl).2 _ rfl,
    hkeeps⟩

end Workspace

end Marginalia
