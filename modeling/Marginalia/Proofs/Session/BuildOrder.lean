import Marginalia.Proofs.Session.Growth
import Marginalia.Proofs.Workspace.Copies

/-!
# The order of building

A finish may be given early or late. As long as what comes in between builds, is no rival of the
finish and copies no line that it decorates, the command that gives it may be moved across: the same
commands are refused for the same reasons, and the session is the same in the end. In particular a
line may be decorated before or after it is appended, unless it is copied. What is handed to a line
after it was copied never shows on the copy.

Results:
* `Session.step_finished`: a finish before and after one command.
* `Session.runAll_finished`: a finish before and after a script.
* `Session.moves_append`: a decoration may be moved across an append that copies nothing.
* `Session.build_order`: scripts with a finish early and late, and what becomes of copies.
-/

namespace Marginalia

namespace Session

open Workspace

variable {s : Session} {f g : Finish} {c : Command} {d : ReportCommand} {r : ReportId} {q : Request}

/-- Whether a command was carried out, and what it was refused for if not. -/
def verdict (reply : Except Fault Reply) : Except Fault Unit := reply.map fun _ => ()

/-- The session with a finish on its workspace. -/
def finished (s : Session) (f : Finish) : Session := { s with space := s.space.finished f }

/-- A command does not stand in the way of a finish: it builds, but it neither sets the same flag or
decorates the same line nor copies the line that is decorated. -/
structure Passes (s : Session) (f : Finish) (c : Command) : Prop where
  builds : c.Builds
  apart : ∀ g, s.Gives c g → ¬ f.Rivals g
  spared : ∀ d r q, c = .report d → s.Asks d r q → f.Spared s.space r q

/-- None of some commands stands in the way of a finish. -/
def PassesAll (s : Session) (f : Finish) : List Command → Prop
  | [] => True
  | c :: rest => s.Passes f c ∧ (s.step c).2.PassesAll f rest

/-- A command can be moved across others: it gives a finish, none of them stands in its way, and
behind them the same finish is given. It may go by another name of the line there. -/
structure Moves (s : Session) (f : Finish) (early : Command) (mid : List Command) (late : Command) :
    Prop where
  early : s.Gives early f
  late : (s.runAll mid).2.Gives late f
  passes : s.PassesAll f mid

/-! ## What stands in the way -/

theorem Gives.there (hs : s.Sound) (h : s.Gives c f) : f.There s.space := by
  cases h with
  | annotate hid => exact hs.lineId_lt hid
  | color hr | indent hr => exact hs.reportId_lt hr

theorem Gives.unique (h : s.Gives c f) (h' : s.Gives c g) : g = f := by
  cases h with
  | annotate hid =>
    cases h' with
    | annotate hid' => rw [Except.ok.inj (hid'.symm.trans hid)]
  | color hr =>
    cases h' with
    | color hr' => rw [Except.ok.inj (hr'.symm.trans hr)]
  | indent hr =>
    cases h' with
    | indent hr' => rw [Except.ok.inj (hr'.symm.trans hr)]

theorem Asks.unique {r' : ReportId} {q' : Request} (h : s.Asks d r q) (h' : s.Asks d r' q') :
    r' = r ∧ q' = q := by
  cases h with
  | jump hr =>
    cases h' with
    | jump hr' => exact ⟨Except.ok.inj (hr'.symm.trans hr), rfl⟩
  | note hr hc =>
    cases h' with
    | note hr' hc' =>
      exact ⟨Except.ok.inj (hr'.symm.trans hr), by rw [Except.ok.inj (hc'.symm.trans hc)]⟩
  | line hr hc =>
    cases h' with
    | line hr' hc' =>
      exact ⟨Except.ok.inj (hr'.symm.trans hr), by rw [Except.ok.inj (hc'.symm.trans hc)]⟩
  | lines hr hcs =>
    cases h' with
    | lines hr' hcs' =>
      exact ⟨Except.ok.inj (hr'.symm.trans hr), by rw [Except.ok.inj (hcs'.symm.trans hcs)]⟩

theorem Gives.builds (h : s.Gives c f) : c.Builds := by
  cases h <;> constructor

theorem Asks.builds (h : s.Asks d r q) : (Command.report d).Builds := by
  cases h <;> constructor

/-- A finish stands in the way of its rivals only. -/
theorem passes_of_gives (hc : s.Gives c g) (h : ¬ f.Rivals g) : s.Passes f c where
  builds := hc.builds
  apart g' hg' := hc.unique hg' ▸ h
  spared d r q hd hasks := by
    subst hd
    cases hc <;> cases hasks

/-- A request stands in the way of decorations on what it copies only. -/
theorem passes_of_asks (hd : s.Asks d r q) (h : f.Spared s.space r q) :
    s.Passes f (.report d) where
  builds := hd.builds
  apart g hg := by cases hg <;> cases hd
  spared d' r' q' hd' hasks := by
    cases hd'
    obtain ⟨rfl, rfl⟩ := hd.unique hasks
    exact h

/-! ## Before and after commands -/

/-- **A finish comes to the same before and after a command** that does not stand in its way. -/
theorem step_finished (hs : s.Sound) (hf : f.There s.space) (h : s.Passes f c) :
    verdict ((s.finished f).step c).1 = verdict (s.step c).1 ∧
      ((s.finished f).step c).2 = (s.step c).2.finished f ∧
      ((s.step c).2.space.finish f).1 = (s.space.finish f).1 := by
  obtain ⟨g, hg⟩ | ⟨d, r, q, rfl, hasks⟩ | ⟨e, hstep⟩ := builds_cases h.builds s
  · have hrivals := h.apart g hg
    obtain ⟨hverdict, hafter⟩ := step_of_gives hg
    obtain ⟨hverdict', hafter'⟩ := step_of_gives (hg.space (s.space.finished f))
    refine ⟨?_, ?_, ?_⟩
    · rw [verdict, verdict, hverdict, ← fst_finish_finished hrivals]
      exact hverdict'
    · rw [hafter, finished, finished, ← finished_comm hrivals]
      exact hafter'
    · rw [hafter]
      exact fst_finish_finished fun hgf => hrivals hgf.symm
  · obtain ⟨hr, hq⟩ := hs.asks hasks
    have hcarry := carryOut_finished (hs.space r hr) hq hf (h.spared d r q rfl hasks)
    have hasks' := hasks.space (s.space.finished f)
    refine ⟨?_, ?_, ?_⟩
    · rw [verdict, verdict, (step_of_asks hasks).1, ← congrArg Prod.fst hcarry]
      exact (step_of_asks hasks').1
    · rw [snd_step_of_asks hasks, finished, finished, snd_step_of_asks hasks', hcarry]
    · rw [(step_of_asks hasks).2]
      exact fst_finish_of_contents hf (frame_carryOut (hs.space r hr) hq).2.contents
  · have hplain : s.step c = (.error e, s) := hstep s.space
    have hfinished : (s.finished f).step c = (.error e, s.finished f) := hstep _
    rw [hplain, hfinished]
    exact ⟨rfl, rfl, rfl⟩

/-- **A finish comes to the same before and after a script** in which nothing stands in its way. -/
theorem runAll_finished : ∀ (cs : List Command) {s : Session}, s.Sound → f.There s.space →
    s.PassesAll f cs →
    ((s.finished f).runAll cs).1.map verdict = (s.runAll cs).1.map verdict ∧
      ((s.finished f).runAll cs).2 = (s.runAll cs).2.finished f ∧
      ((s.runAll cs).2.space.finish f).1 = (s.space.finish f).1
  | [], s, _, _, _ => ⟨rfl, rfl, rfl⟩
  | c :: rest, s, hs, hf, hpasses => by
    obtain ⟨hverdict, hafter, hfinish⟩ := step_finished hs hf hpasses.1
    obtain ⟨hsound, hlines, hreports⟩ := sound_step hs c
    obtain ⟨hverdicts, hend, hlast⟩ :=
      runAll_finished rest hsound (hf.mono hlines hreports) hpasses.2
    refine ⟨?_, ?_, hlast.trans hfinish⟩
    · simp only [runAll, List.map_cons, hverdict, hafter, hverdicts]
    · simp only [runAll, hafter, hend]

/-! ## Decorating a line that is appended -/

/-- **A decoration may be moved across an append** of its line that does not copy it, whatever name
is given to what was appended. -/
theorem moves_append (hs : s.Sound) {name : String} {id : LineId} (hid : s.lineId name = .ok id)
    (hasks : s.Asks d r q) (hq : q.contents = [.line id])
    (hfresh : id ∉ (s.space.report r).blocks) (a : Annotation) :
    s.Moves (.annotate id a) (.line (.annotate name a)) [.report d] (.line (.annotate name a)) where
  early := .annotate hid
  late := by
    refine .annotate ?_
    show (s.step (.report d)).2.lineId name = .ok id
    rw [snd_step_of_asks hasks]
    refine Names.find_of_same hid fun p hp => ?_
    exact eq_of_mem_appended (hs.space r (hs.asks hasks).1) (hs.lineId_lt hid) hq hfresh _
      (ReportCommand.mem_of_mem_saved hp)
  passes := ⟨passes_of_asks hasks (spared_of_one hq hfresh), trivial⟩

/-! ## All of it -/

/-- Two scripts, which differ in whether a command stands in front of some others or another one
behind them, come to the same. -/
structure Agree (s : Session) (early : Command) (mid : List Command) (late : Command)
    (after : List Command) : Prop where
  /-- The sessions are the same in the end. -/
  session : (s.runAll (early :: (mid ++ after))).2 = (s.runAll (mid ++ late :: after)).2
  /-- The two commands are carried out, or refused for the same reason, and so are those in between.
  Those that come after get the same replies. -/
  replies : ∃ reply reply' replies replies' rest,
    (s.runAll (early :: (mid ++ after))).1 = reply :: (replies ++ rest) ∧
      (s.runAll (mid ++ late :: after)).1 = replies' ++ reply' :: rest ∧
      replies.length = mid.length ∧ verdict reply' = verdict reply ∧
      replies'.map verdict = replies.map verdict

/-- **Moving a command** leaves a script with what it comes to. -/
theorem Moves.agree (hs : s.Sound) {early late : Command} {mid : List Command}
    (h : s.Moves f early mid late) (after : List Command) : s.Agree early mid late after := by
  obtain ⟨hverdict, hearly⟩ := step_of_gives h.early
  obtain ⟨hverdict', hlate⟩ := step_of_gives h.late
  obtain ⟨hverdicts, hmid, hfinish⟩ := runAll_finished mid hs (h.early.there hs) h.passes
  have hfront : s.runAll (early :: (mid ++ after)) =
      ((s.step early).1 :: (((s.finished f).runAll mid).1 ++
        (((s.runAll mid).2.finished f).runAll after).1),
        (((s.runAll mid).2.finished f).runAll after).2) := by
    have hrest := runAll_append mid after (s.finished f)
    rw [hmid] at hrest
    rw [runAll_cons, hearly]
    exact congrArg (fun behind => ((s.step early).1 :: behind.1, behind.2)) hrest
  have hback : s.runAll (mid ++ late :: after) =
      ((s.runAll mid).1 ++ ((s.runAll mid).2.step late).1 ::
        (((s.runAll mid).2.finished f).runAll after).1,
        (((s.runAll mid).2.finished f).runAll after).2) := by
    rw [runAll_append, runAll_cons, hlate]
    rfl
  refine ⟨by rw [hfront, hback], _, _, _, _, _, congrArg Prod.fst hfront, congrArg Prod.fst hback,
    length_runAll mid _, ?_, hverdicts.symm⟩
  exact hverdict'.trans (hfinish.trans hverdict.symm)

/-- What was appended holds what was handed over, with the decorations on it that were handed to it
since. -/
theorem content_appended (hs : s.Sound) (hasks : s.Asks d r q) {ids : List LineId}
    (hids : (s.space.carryOut r q).1 = .ok ids) {i : Nat} {original block : LineId}
    (horiginal : q.contents[i]? = some (.line original)) (hblock : ids[i]? = some block)
    (later : List Command) :
    (((s.step (.report d)).2.runAll later).2.space.line block).content =
      ((s.space.line original).attemptAll
        ((s.step (.report d)).2.handed block later)).content := by
  obtain ⟨hr, hq⟩ := hs.asks hasks
  have hjump := Request.isJump_of_mem (List.mem_of_getElem? horiginal)
  have htakes := takesAll_carryOut (hs.space r hr) hjump hq hids
  have hspace := (step_of_asks hasks).2
  have hthere : block < (s.step (.report d)).2.space.lines.length := by
    rw [hspace]
    refine lt_of_mem_appended (hs.space r hr) hq block ?_
    rw [hids]
    exact List.mem_of_getElem? hblock
  have hcontent : ((s.step (.report d)).2.space.line block).content =
      (s.space.line original).content := by
    rw [hspace]
    exact (htakes.each i _ block horiginal hblock).1.content
  rw [content_runAll later (sound_step hs _).1 hthere]
  exact Line.content_attemptAll hcontent

/-- **The order of building does not matter** as long as references are respected. In any session, a
command that decorates a line or sets a flag of a report may be moved across commands that build, if
none of these decorates the same line or sets the same flag, and none copies the line: what is
refused is the same, and so is the session in the end, and with it whatever is shown of a report. In
particular a line may be decorated before or after it is appended, unless it is a block already.
What is appended holds what was handed over, with the decorations that were handed to it since: a
copy has none of those that were handed to the original. -/
theorem build_order (before : List Command) :
    let s := (({} : Session).runAll before).2
    (∀ (f : Finish) (early late : Command) (mid : List Command), s.Moves f early mid late →
      ∀ after, s.Agree early mid late after) ∧
    (∀ (name : String) (id : LineId) (d : ReportCommand) (r : ReportId) (q : Request),
      s.lineId name = .ok id → s.Asks d r q → q.contents = [.line id] →
      id ∉ (s.space.report r).blocks → ∀ a after,
        s.Agree (.line (.annotate name a)) [.report d] (.line (.annotate name a)) after) ∧
    ∀ (d : ReportCommand) (r : ReportId) (q : Request) (ids : List LineId) (i : Nat)
      (original block : LineId),
      s.Asks d r q → (s.space.carryOut r q).1 = .ok ids →
      q.contents[i]? = some (.line original) → ids[i]? = some block → ∀ later,
        (((s.step (.report d)).2.runAll later).2.space.line block).content =
          ((s.space.line original).attemptAll
            ((s.step (.report d)).2.handed block later)).content := by
  intro s
  have hs : s.Sound := sound_empty.runAll before
  refine ⟨fun f early late mid h after => h.agree hs after, ?_, ?_⟩
  · intro name id d r q hid hasks hq hfresh a after
    exact (moves_append hs hid hasks hq hfresh a).agree hs after
  · intro d r q ids i original block hasks hids horiginal hblock later
    exact content_appended hs hasks hids horiginal hblock later

/-- A line is decorated under its first name, or behind other commands under the one that it is
given as a block. When it is appended again it is copied, with the decoration that it has by then.
-/
theorem build_order_name_given_later :
    let a (start stop : Int) : Annotation := .underline (.within (some start) (some stop)) {} []
    let before : List Command := [.report (.new "d" false false),
      .line (.new (some "x") (.text ['a', 'b', 'c']) false 1)]
    let mid : List Command := [.report (.addLine "d" (.line "x") (some "y")),
      .report (.setColor "d" true), .report (.jump "d" 9 true),
      .report (.addNote "d" (.text ['n']) none)]
    let late : Command := .line (.annotate "y" (a 1 2))
    let s := (({} : Session).runAll before).2
    let s' := (({} : Session).runAll (before ++ (mid ++ [late]))).2
    let again : ReportCommand := .addLine "d" (.line "x") (some "z")
    let later : List Command := [.line (.annotate "x" (a 0 1)), .line (.annotate "z" (a 2 3))]
    let s'' := ((s'.step (.report again)).2.runAll later).2
    s.Agree (.line (.annotate "x" (a 1 2))) mid late [.report (.render "d")] ∧
      s.Agree (.line (.annotate "x" (a 1 2))) [.report (.addLine "d" (.line "x") (some "y"))]
        (.line (.annotate "x" (a 1 2))) [] ∧
      (s''.space.line 3).content = ((s'.space.line 0).attemptAll [a 2 3]).content ∧
      (s''.space.line 3).underlines.map (·.toSpan) = [⟨1, 2⟩, ⟨2, 3⟩] ∧
      (s''.space.line 0).underlines.map (·.toSpan) = [⟨1, 2⟩, ⟨0, 1⟩] := by
  intro a before mid late s s' again later s''
  obtain ⟨hmove, happend, -⟩ := build_order before
  obtain ⟨-, -, hcopy⟩ := build_order (before ++ (mid ++ [late]))
  have hmoves : s.Moves (.annotate 0 (a 1 2)) (.line (.annotate "x" (a 1 2))) mid late := by
    refine ⟨.annotate rfl, .annotate (by decide), ?_, ?_, ?_, ?_, trivial⟩
    · exact passes_of_asks (.line rfl rfl) (spared_of_one rfl (by decide))
    · exact passes_of_gives (.color rfl) nofun
    · exact passes_of_asks (.jump rfl) (spared_of_not_mem fun _ _ _ => List.not_mem_nil)
    · exact passes_of_asks (.note (r := 0) (by decide) rfl)
        (spared_of_not_mem (by simp [Request.contents]))
  refine ⟨hmove _ _ _ _ hmoves _, ?_, ?_, by decide, by decide⟩
  · exact happend "x" 0 _ 0 _ rfl (.line rfl rfl) rfl (by decide) _ _
  · -- only the last decoration is handed to the copy
    have hhanded : (s'.step (.report again)).2.handed 3 later = [a 2 3] := rfl
    rw [← hhanded]
    exact hcopy again 0 _ [3] 0 0 3 (.line rfl rfl) rfl rfl rfl later

end Session

end Marginalia
