import Marginalia.Proofs.Cli.Outcome
import Marginalia.Proofs.Source.Alike

/-!
# Making line breaks all alike

When the breaks of a text are made line feeds, its offsets change but not its lines: each carriage
return, with its line feed or alone, ends one line before and after
(`Convention.texts_cut_unifyBreaks`), and of what is left line feeds are the only breaks. So a
source of the new text is like one of the old text (`Source.alike_unified`), and since the new
text is its lines with line feeds between them, files that differ in their breaks alone give the
same text.

Results:
* `Convention.texts_cut_unifyBreaks`: the lines of a text, from the text with its breaks made alike.
* `Text.unifyBreaks_eq_of_lines`: the lines are all that the new text tells of the old one.
* `Cli.run_unifyBreaks`: nothing that is shown depends on how the lines of a text end.
-/

namespace Marginalia

namespace Convention

/-- Where line feeds alone are breaks, they are what a text is split at. -/
theorem texts_cut_unix (t : Text) : (unix.cut t).map (·.text) = t.splitOn '\n' :=
  texts_cut_of_singles (by decide) (fun _ _ hc => List.mem_singleton.mp hc) nofun

/-- **The lines of a text are those between line feeds** once its breaks are made all alike. -/
theorem texts_cut_unifyBreaks (t : Text) :
    (normal.cut t).map (·.text) = t.unifyBreaks.splitOn '\n' := by
  fun_induction Text.unifyBreaks t with
  | case1 rest ih =>
    rw [cut, if_pos (by decide), List.splitOn_cons_eq_if_modifyHead, ← ih]
    rfl
  | case2 rest hrest ih =>
    have hpair : rest.head? ≠ some '\n' := by
      intro h
      obtain ⟨tail, rfl⟩ := List.head?_eq_some_iff.mp h
      exact hrest tail rfl
    rw [cut_cons_of_mem (by decide) fun h => hpair h.2.2, List.splitOn_cons_eq_if_modifyHead, ← ih]
    rfl
  | case3 c rest hpair hc ih =>
    have hcr : c ≠ '\r' := hc
    rw [List.splitOn_cons_eq_if_modifyHead, ← ih]
    by_cases hn : c = '\n'
    · rw [cut_cons_of_mem (by simp [normal, hn]) fun h => hcr h.2.1, if_pos (by simp [hn])]
      rfl
    · rw [cut_cons_of_not_mem (by simp [normal, hn, hcr]) fun h => hcr h.2.1,
        if_neg (by simp [hn]), map_text_modifyHead]
  | case4 => rfl

end Convention

/-- **A text whose breaks are made all alike is told by its lines.** -/
theorem Text.unifyBreaks_eq_of_lines {t t' : Text}
    (h : (Convention.normal.cut t).map (·.text) = (Convention.normal.cut t').map (·.text)) :
    t.unifyBreaks = t'.unifyBreaks := by
  rw [Convention.texts_cut_unifyBreaks, Convention.texts_cut_unifyBreaks] at h
  have hjoined := congrArg (List.intercalate ['\n']) h
  rwa [List.intercalate_splitOn, List.intercalate_splitOn] at hjoined

namespace Source

/-- The source of the text with its breaks made all alike, to be cut by some convention. -/
def unified (s : Source) (k : Convention) : Source :=
  { s with content := s.content.unifyBreaks, convention := k
           fits := Nat.le_trans s.content.length_unifyBreaks_le s.fits }

/-- **A source is like one of the text with breaks made all alike**, whether breaks of every kind
are looked for in that or line feeds alone. -/
theorem alike_unified (s : Source) {k : Convention} (hk : k ∈ [Convention.normal, .unix]) :
    Source.Alike { s with convention := .normal } (s.unified k) where
  filename := rfl
  firstRow := rfl
  rowTexts := by
    have hunified : (k.cut s.content.unifyBreaks).map (·.text) =
        s.content.unifyBreaks.splitOn '\n' := by
      simp only [List.mem_cons, List.not_mem_nil, or_false] at hk
      rcases hk with rfl | rfl
      · exact Convention.texts_cut_normal s.content.not_mem_unifyBreaks
      · exact Convention.texts_cut_unix s.content.unifyBreaks
    exact (Convention.texts_cut_unifyBreaks s.content).trans hunified.symm

end Source

namespace Cli

variable {codecs : Text → Option Codec} {find find' : Text → Entry}

/-- The path of a request leads to a file in two places. The codec that the request names makes a
text of both of them, and these have the same lines, whatever ends the lines. -/
inductive Request.ReadsAlike (r : Request) (codecs : Text → Option Codec)
    (find find' : Text → Entry) : Prop
  | intro {bytes bytes' : List UInt8} (hfile : find r.path = .file bytes)
    (hfile' : find' r.path = .file bytes')
    (hlines : ∀ name codec, r.encoding = .value name → codecs name = some codec →
      ∃ t t' : Stored, codec bytes = .text t ∧ codec bytes' = .text t' ∧
        (Convention.normal.cut t.1).map (·.text) = (Convention.normal.cut t'.1).map (·.text))

/-- Texts with the same lines make the same source. -/
theorem Request.source_eq_of_lines (r : Request) {t t' : Stored}
    (h : (Convention.normal.cut t.1).map (·.text) = (Convention.normal.cut t'.1).map (·.text)) :
    r.source t = r.source t' := by
  simp only [source, Text.unifyBreaks_eq_of_lines h]

/-- A request comes out the same for files with the same lines. -/
theorem Request.ReadsAlike.run_eq {r : Request} (h : r.ReadsAlike codecs find find') :
    r.run codecs find = r.run codecs find' := by
  obtain @⟨bytes, bytes', hfile, hfile', hlines⟩ := h
  have hfound : ∀ name, r.encoding = .value name →
      r.runOn codecs name (.file bytes) = r.runOn codecs name (.file bytes') := by
    intro name hname
    rw [Request.runOn, Request.runOn]
    cases hcodec : codecs name with
    | none => rfl
    | some codec =>
      obtain ⟨t, t', ht, ht', htexts⟩ := hlines name codec hname hcodec
      simp only [ht, ht']
      rw [Request.display, Request.display, r.source_eq_of_lines htexts]
  rw [Request.run, Request.run, hfile, hfile']
  cases hname : r.encoding with
  | blank => rfl
  | value name => simp only [Setting.get, bind, Except.bind, hfound name hname]

/-- **How lines end makes no difference** where spots are given by line and column. A source of any
text cannot be told apart from the sources of the text with its breaks made all alike, whether
breaks of every kind are looked for in that or line feeds alone. And whatever codecs there are, a
command line prints the same and ends alike for two files of its path that have the same lines. -/
theorem run_unifyBreaks :
    (∀ s : Source,
      let normal : Source := { s with convention := .normal }
      normal.Agree (s.unified .normal) ∧ normal.Agree (s.unified .unix) ∧
        (s.unified .normal).Agree (s.unified .unix)) ∧
    ∀ (codecs : Text → Option Codec) (words : List Text) (find find' : Text → Entry),
      (∀ r, Request.ofArguments words = .ok r → r.ReadsAlike codecs find find') →
      run codecs find words = run codecs find' words := by
  refine ⟨fun s => ?_, fun codecs words find find' h => ?_⟩
  · have hunified := s.alike_unified (k := .normal) (by simp)
    have hunix := s.alike_unified (k := .unix) (by simp)
    exact ⟨hunified.agree, hunix.agree, (hunified.symm.trans hunix).agree⟩
  · rw [run, run]
    cases hwords : Request.ofArguments words with
    | error refusal => rfl
    | ok r => exact (h r hwords).run_eq

/-- A carriage return that stands in front of a pair is a break of its own, in a text and in a file,
and behind it offsets differ from those of a text with line feeds alone. -/
theorem run_unifyBreaks_return_before_pair :
    let mixed : Source := { content := ['a', '\r', '\r', '\n', 'b'] }
    let fed : Source := { content := ['a', '\n', '\n', 'b'], convention := .unix }
    let session : Session := { sources := [("mixed", mixed), ("fed", fed)] }
    let m : Remark := { spot := ⟨0, 1⟩, message := ['m'], context := 1, caption := ['x'] }
    let words : List Text := [['f'], ['-', 'l', '3']]
    let find : Text → Entry := fun _ => .file [97, 13, 13, 10, 98]
    let find' : Text → Entry := fun _ => .file [97, 10, 13, 98]
    (mixed.offset 3 0 = .ok 4 ∧ fed.offset 3 0 = .ok 3) ∧
      (session.excerpt "mixed" (m.movedTo 4) >>= Report.render?) =
        (session.excerpt "fed" (m.movedTo 3) >>= Report.render?) ∧
      (∀ r, Request.ofArguments words = .ok r → r.ReadsAlike Encoding.codec? find find') ∧
      run Encoding.codec? find words = run Encoding.codec? find' words := by
  intro mixed fed session m words find find'
  have hunix : mixed.Agree fed := (run_unifyBreaks.1 mixed).2.1
  have hwords : Request.ofArguments words = .ok { path := ['f'], line := .value 3 } := by decide
  have hreads : ∀ r, Request.ofArguments words = .ok r →
      r.ReadsAlike Encoding.codec? find find' := by
    intro r hr
    obtain rfl := Except.ok.inj (hwords.symm.trans hr)
    refine .intro rfl rfl fun name codec hname hcodec => ?_
    cases hname
    cases hcodec
    exact ⟨⟨['a', '\r', '\r', '\n', 'b'], by decide⟩, ⟨['a', '\n', '\r', 'b'], by decide⟩,
      rfl, rfl, rfl⟩
  have hmixed : mixed.offset 3 0 = .ok 4 := rfl
  have hfed : fed.offset 3 0 = .ok 3 := rfl
  exact ⟨⟨hmixed, hfed⟩, hunix.excerpt hmixed hfed m rfl rfl, hreads,
    run_unifyBreaks.2 Encoding.codec? words find find' hreads⟩

end Cli

end Marginalia
