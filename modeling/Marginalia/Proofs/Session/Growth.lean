import Marginalia.Proofs.Session.Building

/-!
# How a session grows

Whatever a session is told to do, its names stand for lines and reports that are there, and the
blocks of each report stay distinct. No line is lost, and only a decoration that is handed to a line
changes what the line holds. So what a line holds after a script is what it held before, with the
decorations on it that were handed to it on the way.

Results:
* `Session.grows_step`: a command that decorates no line changes what no line holds.
* `Session.Sound.runAll`: the references of a session are sound.
* `Session.content_runAll`: what a line holds after a script.
-/

namespace Marginalia

namespace Workspace

variable {w w' w'' : Workspace} {r : ReportId}

/-- More lines and more reports, which are as sound, and no line holds anything else than before. -/
structure Grows (w w' : Workspace) : Prop where
  sound : w.Sound → w'.Sound
  lines : w.lines.length ≤ w'.lines.length
  reports : w.reports.length ≤ w'.reports.length
  contents : ∀ id < w.lines.length, (w'.line id).content = (w.line id).content

theorem Grows.refl (w : Workspace) : w.Grows w := ⟨id, Nat.le_refl _, Nat.le_refl _, fun _ _ => rfl⟩

theorem Grows.trans (h : w.Grows w') (h' : w'.Grows w'') : w.Grows w'' where
  sound := h'.sound ∘ h.sound
  lines := Nat.le_trans h.lines h'.lines
  reports := Nat.le_trans h.reports h'.reports
  contents id hid :=
    (h'.contents id (Nat.lt_of_lt_of_le hid h.lines)).trans (h.contents id hid)

theorem Extends.grows (h : Extends w w') : w.Grows w' where
  sound hw := fun r hr => h.proper (hw r (h.reports ▸ hr))
  lines := h.length
  reports := Nat.le_of_eq (congrArg List.length h.reports).symm
  contents id hid := congrArg Line.content (h.lines id hid)

theorem grows_newReport {rep : Report LineId} (hlines : ∀ id ∈ rep.blocks, id < w.lines.length)
    (hnodup : rep.blocks.Nodup) : w.Grows (w.newReport rep).1 where
  sound hw := hw.newReport hlines hnodup
  lines := Nat.le_refl _
  reports := by simp [newReport]
  contents _ _ := rfl

theorem grows_adopt (w : Workspace) (r : Report Line) : w.Grows (w.adopt r).1 := by
  refine (extends_append w r.blocks).grows.trans (grows_newReport ?_ ?_)
  · intro id hid
    obtain ⟨i, hi, rfl⟩ := List.mem_map.mp hid
    rw [List.length_append]
    exact Nat.add_lt_add_left (List.mem_range.mp hi) _
  · exact (List.nodup_range).map fun i j hij => Nat.add_left_cancel hij

theorem grows_modifyLine {id : LineId} {f : Line → Line} (hf : ∀ l, (f l).content = l.content) :
    w.Grows (w.modifyLine id f) := by
  have hlength : (w.modifyLine id f).lines.length = w.lines.length := length_lines_modifyLine f
  refine ⟨fun hw i hi => ⟨hi, ?_, (hw i hi).nodup⟩, Nat.le_of_eq hlength.symm, Nat.le_refl _,
    fun i hi => ?_⟩
  · rw [hlength]
    exact (hw i hi).lines
  · by_cases hid : i = id
    · subst hid
      rw [line_modifyLine_self hi, hf]
    · rw [line_modifyLine_ne hid]

theorem grows_finished {f : Finish} (hf : ∀ id a, f ≠ .annotate id a) :
    w.Grows (w.finished f) where
  sound := sound_finished
  lines := Nat.le_of_eq (length_lines_finished w f).symm
  reports := Nat.le_of_eq (length_reports_finished w f).symm
  contents id _ := by
    rw [line_finished_of_still]
    cases f with
    | annotate id a => exact absurd rfl (hf id a)
    | color r flag | indent r flag => exact fun _ => rfl

theorem grows_carryOut (hw : w.Sound) (hr : r < w.reports.length) {q : Request}
    (hq : ∀ c ∈ q.contents, w.Holds c) : w.Grows (w.carryOut r q).2 := by
  have hframe := (frame_carryOut (hw r hr) hq).2
  exact ⟨fun hw => hw.turn (.request hr hq), hframe.lines, Nat.le_of_eq hframe.reports.symm,
    hframe.contents⟩

end Workspace

theorem ReportCommand.mem_of_mem_saved {c : ReportCommand} {ids : List LineId}
    {p : String × LineId} (h : p ∈ c.saved ids) : p.2 ∈ ids := by
  cases c with
  | addNote report content saveAs | addLine report content saveAs => exact (List.of_mem_zip h).2
  | addLines report contents saveAs => exact (List.of_mem_zip (List.mem_reverse.mp h)).2
  | new | setColor | setIndent | jump | status | blocks | block | render => cases h

namespace Session

open Workspace

variable {α β : Type} {s s' : Session}

/-- The names of a session stand for lines and reports that are there, and the blocks of each report
are distinct lines that are there. -/
structure Sound (s : Session) : Prop where
  space : s.space.Sound
  lines : ∀ p ∈ s.lines, p.2 < s.space.lines.length
  reports : ∀ p ∈ s.reports, p.2 < s.space.reports.length

/-- The workspace of a session grows, and its new names stand for what is there. -/
structure Grows (s s' : Session) : Prop where
  space : s.space.Grows s'.space
  lines : ∀ p ∈ s'.lines, p ∈ s.lines ∨ p.2 < s'.space.lines.length
  reports : ∀ p ∈ s'.reports, p ∈ s.reports ∨ p.2 < s'.space.reports.length

theorem Grows.refl (s : Session) : s.Grows s :=
  ⟨.refl _, fun _ hp => Or.inl hp, fun _ hp => Or.inl hp⟩

theorem Sound.grows (hs : s.Sound) (h : s.Grows s') : s'.Sound where
  space := h.space.sound hs.space
  lines p hp := (h.lines p hp).elim
    (fun hp => Nat.lt_of_lt_of_le (hs.lines p hp) h.space.lines) id
  reports p hp := (h.reports p hp).elim
    (fun hp => Nat.lt_of_lt_of_le (hs.reports p hp) h.space.reports) id

theorem Sound.lineId_lt (hs : s.Sound) {name : String} {id : LineId}
    (h : s.lineId name = .ok id) : id < s.space.lines.length :=
  hs.lines _ (Names.mem_of_find h)

theorem Sound.reportId_lt (hs : s.Sound) {name : String} {r : ReportId}
    (h : s.reportId name = .ok r) : r < s.space.reports.length :=
  hs.reports _ (Names.mem_of_find h)

theorem Sound.holds (hs : s.Sound) {o : Operand} {c : Content} (h : s.contentOf o = .ok c) :
    s.space.Holds c := by
  rintro id rfl
  cases o with
  | line name =>
    obtain ⟨id', hid, h⟩ := exists_of_bind_eq_ok h
    cases h
    exact hs.lineId_lt hid
  | text t => cases h
  | other kind => cases h

/-- **What a command asks for** is about a report and lines that are there. -/
theorem Sound.asks (hs : s.Sound) {c : ReportCommand} {r : ReportId} {q : Request}
    (h : s.Asks c r q) : r < s.space.reports.length ∧ ∀ c ∈ q.contents, s.space.Holds c := by
  cases h with
  | jump hr => exact ⟨hs.reportId_lt hr, nofun⟩
  | note hr hc | line hr hc =>
    exact ⟨hs.reportId_lt hr, fun _ hmem => List.mem_singleton.mp hmem ▸ hs.holds hc⟩
  | @lines report r contents cs saveAs hr hcs =>
    have hholds := (forall₂_of_mapM_eq_ok hcs).imp
      fun _ _ ho => (⟨ho, hs.holds ho⟩ : _ ∧ s.space.Holds _)
    exact ⟨hs.reportId_lt hr, (forall₂_and_right.mp hholds).2⟩

/-! ## What commands do -/

/-- A sound session grows by an action. -/
def Grown (a : Action α) : Prop := ∀ s : Session, s.Sound → s.Grows (a.run.run s).2

theorem grown_throw (e : Fault) : Grown (throw e : Action α) := fun s _ => .refl s

theorem grown_ask (question : Session → Except Fault α) : Grown (ask question) :=
  fun s _ => by
    rw [run_ask]
    exact .refl s

/-- What follows upon a look at a session that is not refused. -/
theorem grown_ask_bind {question : Session → Except Fault α} {f : α → Action β}
    (hf : ∀ (s : Session) x, s.Sound → question s = .ok x → s.Grows ((f x).run.run s).2) :
    Grown (ask question >>= f) :=
  fun s hs => leads_ask_bind (.refl s) fun x hx => hf s x hs hx

theorem grows_space {w : Workspace} (h : s.space.Grows w) : s.Grows { s with space := w } :=
  ⟨h, fun _ hp => Or.inl hp, fun _ hp => Or.inl hp⟩

/-- A session with a new workspace and a name for one of its lines, if there is one to be given. -/
theorem grows_nameLine {w : Workspace} {id : LineId} (h : s.space.Grows w)
    (hid : id < w.lines.length) (saveAs : Option String) :
    s.Grows { s with space := w, lines := s.lines.bind saveAs id } := by
  refine ⟨h, fun p hp => ?_, fun _ hp => Or.inl hp⟩
  cases saveAs with
  | none => exact Or.inl hp
  | some name =>
    rcases List.mem_cons.mp hp with rfl | hp
    · exact Or.inr hid
    · exact Or.inl hp

/-- A session with a new workspace and a name for one of its reports. -/
theorem grows_nameReport {w : Workspace} {r : ReportId} (h : s.space.Grows w)
    (hr : r < w.reports.length) (saveAs : String) :
    s.Grows { s with space := w, reports := s.reports.bind (some saveAs) r } := by
  refine ⟨h, fun _ hp => Or.inl hp, fun p hp => ?_⟩
  rcases List.mem_cons.mp hp with rfl | hp
  · exact Or.inr hr
  · exact Or.inl hp

theorem grows_makeLine (s : Session) (saveAs : Option String) (l : Line) :
    s.Grows ((makeLine saveAs l).run.run s).2 := by
  rw [run_makeLine]
  exact grows_nameLine (extends_newLine s.space l).grows (by simp [newLine]) saveAs

theorem grown_performLine : ∀ {c : LineCommand}, (∀ line a, c ≠ .annotate line a) →
    Grown (performLine c)
  | .new saveAs v numbered number, _ => by
    cases v with
    | text t => exact fun s _ => s.grows_makeLine _ _
    | _ => exact grown_throw _
  | .annotate line a, hc => absurd rfl (hc line a)
  | .renumber line numbered number, _ =>
    grown_ask_bind fun _ _ _ _ => grows_space (grows_modifyLine fun _ => rfl)
  | .append left right saveAs, _ | .add left right saveAs, _ =>
    grown_ask_bind fun s l _ _ => s.grows_makeLine saveAs l
  | .inspect _, _ | .label _, _ | .picture _, _ | .compare _, _ | .present _, _ => grown_ask _

/-- **A command that builds** and decorates no line lets a session grow. -/
theorem grows_of_builds (hs : s.Sound) {c : Command} (h : c.Builds)
    (hc : ∀ line a, c ≠ .line (.annotate line a)) : s.Grows (s.step c).2 := by
  obtain ⟨f, hf⟩ | ⟨d, r, q, rfl, hasks⟩ | ⟨e, hstep⟩ := builds_cases h s
  · rw [(step_of_gives hf).2]
    refine grows_space (grows_finished ?_)
    rintro id a rfl
    cases hf
    exact hc _ _ rfl
  · obtain ⟨hr, hq⟩ := hs.asks hasks
    rw [snd_step_of_asks hasks]
    refine ⟨grows_carryOut hs.space hr hq, fun p hp => ?_, fun _ hp => Or.inl hp⟩
    rcases List.mem_append.mp hp with hp | hp
    · exact Or.inr (lt_of_mem_appended (hs.space r hr) hq _ (ReportCommand.mem_of_mem_saved hp))
    · exact Or.inl hp
  · have hsame : (s.step c).2 = s := congrArg Prod.snd (hstep s.space)
    rw [hsame]
    exact .refl s

theorem mem_blocks_of_blockAt {r : Report LineId} {index : Int} {id : LineId}
    (h : blockAt r index = .ok id) : id ∈ r.blocks := by
  simp only [blockAt] at h
  generalize (if index < 0 then index + (r.blocks.length : Int) else index) = i at h
  by_cases hi : i < 0
  · rw [if_pos hi] at h
    cases h
  · rw [if_neg hi] at h
    cases hblock : r.blocks[i.toNat]? with
    | none =>
      rw [hblock] at h
      cases h
    | some id' =>
      rw [hblock] at h
      cases h
      exact List.mem_of_getElem? hblock

theorem grows_report (hs : s.Sound) (c : ReportCommand) : s.Grows (s.step (.report c)).2 := by
  have hbuilds : (Command.report c).Builds → s.Grows (s.step (.report c)).2 :=
    fun hc => grows_of_builds hs hc fun line a h => by cases h
  cases c with
  | new saveAs color indentAll =>
    exact grows_nameReport (grows_newReport (by simp) List.nodup_nil) (by simp [newReport]) saveAs
  | setColor report flag => exact hbuilds (.color report flag)
  | setIndent report flag => exact hbuilds (.indent report flag)
  | jump report target tellSkip => exact hbuilds (.jump report target tellSkip)
  | addNote report content saveAs => exact hbuilds (.note report content saveAs)
  | addLine report content saveAs => exact hbuilds (.line report content saveAs)
  | addLines report contents saveAs => exact hbuilds (.lines report contents saveAs)
  | block report index saveAs =>
    refine grown_ask_bind (fun s r hs hr => ?_) s hs
    rw [run_ask_bind]
    cases hid : blockAt (s.space.report r) index with
    | error e => exact .refl s
    | ok id =>
      have hlines := (hs.space r (hs.reportId_lt hr)).lines id (mem_blocks_of_blockAt hid)
      exact grows_nameLine (.refl _) hlines (some saveAs)
  | status | blocks | render => exact grown_ask _ s hs

theorem grown_performSource : ∀ c : SourceCommand, Grown (performSource c)
  | .new saveAs content breaks filename firstRow => fun s _ => by
    rw [performSource, Attempt.run_bind, Attempt.run_lift]
    cases Source.make content breaks filename firstRow with
    | error e => exact .refl s
    | ok source => exact ⟨.refl _, fun _ hp => Or.inl hp, fun _ hp => Or.inl hp⟩
  | .excerpt _ _ saveAs =>
    grown_ask_bind fun s r _ _ =>
      grows_nameReport (s.space.grows_adopt r) (by simp [adopt, newReport]) saveAs
  | .lastRow _ | .position .. | .positions _ | .offset .. | .rowText .. | .rowTexts _ |
    .showExcerpt .. | .printExcerpt .. => grown_ask _

/-- **A command that decorates no line** lets a session grow, and no line holds anything else. -/
theorem grows_step (hs : s.Sound) {c : Command} (hc : ∀ line a, c ≠ .line (.annotate line a)) :
    s.Grows (s.step c).2 := by
  cases c with
  | line c => exact grown_performLine (fun line a hline => hc line a (hline ▸ rfl)) s hs
  | report c => exact grows_report hs c
  | source c => exact grown_performSource c s hs

/-! ## Decorations that are handed to lines -/

/-- **What a command does that decorates a line**, if the line has the name. -/
theorem step_annotate_cases (s : Session) (line : String) (a : Annotation) :
    (∃ id, s.lineId line = .ok id ∧ (s.step (.line (.annotate line a))).2 =
      { s with space := s.space.finished (.annotate id a) }) ∨
    (∀ id, s.lineId line ≠ .ok id) ∧ (s.step (.line (.annotate line a))).2 = s := by
  cases hid : s.lineId line with
  | ok id => exact Or.inl ⟨id, rfl, (step_of_gives (.annotate hid)).2⟩
  | error e =>
    refine Or.inr ⟨nofun, ?_⟩
    rw [step, perform, performLine, run_ask_bind, hid]

/-- The decorations that a command hands to a line. -/
def handedBy (s : Session) (id : LineId) : Command → List Annotation
  | .line (.annotate line a) => if s.lineId line = .ok id then [a] else []
  | _ => []

/-- The decorations that a script hands to a line, whatever name the line has at the time. -/
def handed (s : Session) (id : LineId) : List Command → List Annotation
  | [] => []
  | c :: rest => s.handedBy id c ++ (s.step c).2.handed id rest

/-- **A sound session stays sound**, and loses no line. -/
theorem sound_step (hs : s.Sound) (c : Command) :
    (s.step c).2.Sound ∧ s.space.lines.length ≤ (s.step c).2.space.lines.length ∧
      s.space.reports.length ≤ (s.step c).2.space.reports.length := by
  by_cases hc : ∃ line a, c = .line (.annotate line a)
  · obtain ⟨line, a, rfl⟩ := hc
    obtain ⟨id, -, hstep⟩ | ⟨-, hstep⟩ := s.step_annotate_cases line a
    · have hlines := length_lines_finished s.space (.annotate id a)
      have hreports := length_reports_finished s.space (.annotate id a)
      rw [hstep]
      refine ⟨⟨sound_finished hs.space, ?_, ?_⟩, Nat.le_of_eq hlines.symm,
        Nat.le_of_eq hreports.symm⟩
      · rw [hlines]
        exact hs.lines
      · rw [hreports]
        exact hs.reports
    · rw [hstep]
      exact ⟨hs, Nat.le_refl _, Nat.le_refl _⟩
  · have hgrows := grows_step hs fun line a h => hc ⟨line, a, h⟩
    exact ⟨hs.grows hgrows, hgrows.space.lines, hgrows.space.reports⟩

theorem sound_empty : ({} : Session).Sound := ⟨nofun, nofun, nofun⟩

theorem Sound.runAll : ∀ (cs : List Command) {s : Session}, s.Sound → (s.runAll cs).2.Sound
  | [], _, hs => hs
  | c :: rest, _, hs => Sound.runAll rest (sound_step hs c).1

/-- What a line holds after a command. -/
theorem content_step (hs : s.Sound) {id : LineId} (hid : id < s.space.lines.length)
    (c : Command) : ((s.step c).2.space.line id).content =
      ((s.space.line id).attemptAll (s.handedBy id c)).content := by
  by_cases hc : ∃ line a, c = .line (.annotate line a)
  · obtain ⟨line, a, rfl⟩ := hc
    obtain ⟨i, hi, hstep⟩ | ⟨hnone, hstep⟩ := s.step_annotate_cases line a
    · rw [hstep, line_finished hid, handedBy, hi]
      by_cases hsame : id = i
      · rw [Finish.line, if_pos hsame, if_pos (congrArg Except.ok hsame.symm)]
        rfl
      · rw [Finish.line, if_neg hsame, if_neg fun h => hsame (Except.ok.inj h).symm]
        rfl
    · rw [hstep, handedBy, if_neg (hnone id)]
      rfl
  · have hnone : s.handedBy id c = [] := by
      unfold handedBy
      split
      · exact absurd ⟨_, _, rfl⟩ hc
      · rfl
    rw [hnone]
    exact (grows_step hs fun line a h => hc ⟨line, a, h⟩).space.contents id hid

/-- **What a line holds after a script** is what it held before, with the decorations on it that
were handed to it. -/
theorem content_runAll (cs : List Command) {id : LineId} : ∀ {s : Session}, s.Sound →
    id < s.space.lines.length → ((s.runAll cs).2.space.line id).content =
      ((s.space.line id).attemptAll (s.handed id cs)).content := by
  induction cs with
  | nil => exact fun _ _ => rfl
  | cons c rest ih =>
    intro s hs hid
    obtain ⟨hsound, hlines, -⟩ := sound_step hs c
    rw [runAll, handed, Line.attemptAll_append]
    refine (ih hsound (Nat.lt_of_lt_of_le hid hlines)).trans ?_
    exact Line.content_attemptAll (content_step hs hid c)

end Session

end Marginalia
