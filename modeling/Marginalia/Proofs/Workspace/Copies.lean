import Marginalia.Proofs.Workspace.Finish

/-!
# Requests that copy

A line is a block of a report once at most. When it is handed to the report again, a copy of it is
appended, which has the decorations that the line has by then. So a finish comes to the same before
and after a request, unless it decorates a line that the request copies.

Results:
* `Workspace.carryOut_finished`: a finish comes to the same before and after a request that does not
  copy its line.
* `Workspace.copies_iff`: a request copies a line iff it appends another one in its place.
-/

namespace Marginalia

variable {w : Workspace} {r : ReportId} {id : LineId} {c : Content} {f : Finish}

/-- A request copies a line: it comes to a content that is the line, and by then the report has the
line for a block. -/
def Workspace.Copies (w : Workspace) (r : ReportId) (q : Request) (id : LineId) : Prop :=
  ∃ before after, q.contents = before ++ .line id :: after ∧ (∀ c ∈ before, c.isUsable) ∧
    (id ∈ (w.report r).blocks ∨ .line id ∈ before)

/-- A request copies no line that the finish decorates. -/
def Finish.Spared (f : Finish) (w : Workspace) (r : ReportId) (q : Request) : Prop :=
  ∀ id a, f = .annotate id a → ¬ w.Copies r q id

namespace Workspace

/-! ## What is appended itself -/

section TakesAll

variable {cs : List Content} {number : Nat → Option Int} {w' : Workspace} {ids : List LineId}
  {i : Nat} {block : LineId}

theorem TakesAll.exists_block (h : TakesAll r cs number w w' ids) (hc : cs[i]? = some c) :
    ∃ block, ids[i]? = some block :=
  ⟨_, List.getElem?_eq_getElem (h.length ▸ (List.getElem?_eq_some_iff.mp hc).1)⟩

/-- A line that was there before is appended where it was handed over, or not at all. -/
theorem TakesAll.eq_line (h : TakesAll r cs number w w' ids) (hid : id < w.lines.length)
    (hc : cs[i]? = some c) (hi : ids[i]? = some id) : c = .line id :=
  Decidable.byContradiction fun hne => Nat.not_lt_of_le ((h.each i c id hc hi).1.new hne) hid

/-- Another line is appended in the place of one that is a block by then. -/
theorem TakesAll.ne_iff (h : TakesAll r cs number w w' ids) (hc : cs[i]? = some (.line id))
    (hi : ids[i]? = some block) : block ≠ id ↔ id ∈ (w.report r).blocks ++ ids.take i := by
  have hitself := (h.each i _ block hc hi).1.itself
  simp only [Content.line.injEq, exists_eq_left'] at hitself
  rw [← not_iff_comm.mp hitself.symm, ne_comm]

end TakesAll

/-! ## What a request spares -/

/-- A request that hands over one line copies it iff it is a block already. -/
theorem copies_one_iff {q : Request} {i : LineId} (hq : q.contents = [.line i]) :
    w.Copies r q id ↔ i = id ∧ id ∈ (w.report r).blocks := by
  constructor
  · rintro ⟨before, after, hsplit, -, hpresent⟩
    rw [hq] at hsplit
    cases before with
    | nil =>
      cases hsplit
      exact ⟨rfl, hpresent.resolve_right List.not_mem_nil⟩
    | cons c rest => simp at hsplit
  · rintro ⟨rfl, hpresent⟩
    exact ⟨[], [], hq, nofun, Or.inl hpresent⟩

/-- A request that hands over one line spares whatever finish, unless the line is a block already.
-/
theorem spared_of_one {q : Request} (hq : q.contents = [.line id])
    (hfresh : id ∉ (w.report r).blocks) : f.Spared w r q := by
  rintro i a rfl hcopies
  obtain ⟨rfl, hblock⟩ := (copies_one_iff hq).mp hcopies
  exact hfresh hblock

/-- A request spares decorations on what is not handed over with it. -/
theorem spared_of_not_mem {q : Request}
    (h : ∀ id a, f = .annotate id a → .line id ∉ q.contents) : f.Spared w r q := by
  rintro id a hf ⟨before, after, hsplit, -, -⟩
  exact h id a hf (hsplit ▸ List.mem_append_right before List.mem_cons_self)

/-- What several contents copy without the first of them, they copy together. -/
theorem copies_of_rest {rest : List Content} {i : LineId} {w₁ : Workspace} (hw : w.Proper r)
    (hc : w.Holds c) (hmade : w.outcome (.addLine r c) = .ok (w₁, i)) (hid : id < w.lines.length)
    (h : w₁.Copies r (.lines rest) id) : w.Copies r (.lines (c :: rest)) id := by
  obtain ⟨before, after, hsplit, husable, hpresent⟩ := h
  have htakes := takesAll_addLine hw hc hmade
  have hfirst : c.isUsable := by
    cases c with
    | text t | line j => rfl
    | other kind => cases hmade
  refine ⟨c :: before, after, congrArg (c :: ·) hsplit,
    List.forall_mem_cons.mpr ⟨hfirst, husable⟩, ?_⟩
  rw [htakes.blocks, List.mem_append, List.mem_singleton] at hpresent
  obtain (hblock | rfl) | hbefore := hpresent
  · exact Or.inl hblock
  · -- it became a block with the first content, so it is that one
    exact Or.inr (List.mem_cons.mpr (Or.inl (htakes.eq_line (i := 0) hid rfl rfl).symm))
  · exact Or.inr (List.mem_cons_of_mem _ hbefore)

/-! ## Before and after a request -/

/-- A content that is copied is not decorated. -/
theorem still_of_spared {q : Request} {rest : List Content} (hq : q.contents = c :: rest)
    (hspared : f.Spared w r q) :
    ∀ i, c = .line i → i ∈ (w.report r).blocks → ∀ l, f.line i l = l := by
  rintro i rfl hi l
  cases f with
  | annotate id a =>
    refine if_neg fun hid => hspared id a rfl ?_
    exact ⟨[], rest, hid ▸ hq, nofun, Or.inl (hid ▸ hi)⟩
  | color r flag | indent r flag => rfl

theorem carryOut_lines_finished {cs : List Content} : ∀ {w : Workspace}, w.Proper r →
    (∀ c ∈ cs, w.Holds c) → f.There w → f.Spared w r (.lines cs) →
    (w.finished f).carryOut r (.lines cs) =
      ((w.carryOut r (.lines cs)).1, (w.carryOut r (.lines cs)).2.finished f) := by
  induction cs with
  | nil => exact fun _ _ _ _ => rfl
  | cons c rest ih =>
    intro w hw hcs hf hspared
    rw [carryOut_lines_cons, carryOut_lines_cons, addLine_finished hf (still_of_spared rfl hspared)]
    cases hmade : w.outcome (.addLine r c) with
    | error e => rfl
    | ok made =>
      have hc := hcs c List.mem_cons_self
      have hframe := frame_addLine hw hc hmade
      have hrest := ih (hw.addLine hc hmade)
        (fun c hmem => (hcs c (List.mem_cons_of_mem _ hmem)).mono hframe.lines)
        (hf.mono hframe.lines (Nat.le_of_eq hframe.reports.symm)) ?_
      · simp only [Except.map, hrest]
      · rintro id a rfl hcopies
        exact hspared id a rfl (copies_of_rest hw hc hmade hf hcopies)

/-- **A finish comes to the same before and after a request**, unless it decorates a line that the
request copies. -/
theorem carryOut_finished (hw : w.Proper r) {q : Request} (hq : ∀ c ∈ q.contents, w.Holds c)
    (hf : f.There w) (hspared : f.Spared w r q) :
    (w.finished f).carryOut r q = ((w.carryOut r q).1, (w.carryOut r q).2.finished f) := by
  cases q with
  | jump target tellSkip =>
    rw [carryOut_jump, carryOut_jump, jump_finished hf]
    cases w.outcome (.jump r target tellSkip) <;> rfl
  | note c =>
    rw [carryOut_note, carryOut_note, addNote_finished hf (still_of_spared rfl hspared)]
    cases w.outcome (.addNote r c) <;> rfl
  | line c =>
    rw [carryOut_line, carryOut_line, addLine_finished hf (still_of_spared rfl hspared)]
    cases w.outcome (.addLine r c) <;> rfl
  | lines cs => exact carryOut_lines_finished hw hq hf hspared

/-! ## What a request copies -/

/-- **A request that takes place** copies a line iff it appends another one where it was handed the
line. -/
theorem copies_iff (hw : w.Proper r) {q : Request} (hjump : q.isJump = false)
    (hq : ∀ c ∈ q.contents, w.Holds c) {ids : List LineId} (hids : (w.carryOut r q).1 = .ok ids)
    (hid : id < w.lines.length) : w.Copies r q id ↔
      ∃ (i : Nat) (copy : LineId), q.contents[i]? = some (.line id) ∧ ids[i]? = some copy ∧
        copy ≠ id := by
  have htakes := takesAll_carryOut hw hjump hq hids
  constructor
  · rintro ⟨before, after, hsplit, -, hpresent⟩
    have hhere : q.contents[before.length]? = some (.line id) := by simp [hsplit]
    obtain ⟨copy, hcopy⟩ := htakes.exists_block hhere
    obtain hblock | hbefore := hpresent
    · exact ⟨_, copy, hhere, hcopy, (htakes.ne_iff hhere hcopy).mpr (List.mem_append_left _ hblock)⟩
    · -- it was handed over before, and is a block since then or was copied at that place
      obtain ⟨j, hj, hget⟩ := List.mem_iff_getElem.mp hbefore
      have hearlier : q.contents[j]? = some (.line id) := by
        rw [hsplit, List.getElem?_append_left hj, List.getElem?_eq_getElem hj, hget]
      obtain ⟨x, hx⟩ := htakes.exists_block hearlier
      by_cases hxid : x = id
      · refine ⟨_, copy, hhere, hcopy, (htakes.ne_iff hhere hcopy).mpr (List.mem_append_right _ ?_)⟩
        exact List.mem_of_getElem? ((List.getElem?_take_of_lt hj).trans (hxid ▸ hx))
      · exact ⟨j, x, hearlier, hx, hxid⟩
  · rintro ⟨i, copy, hc, hi, hne⟩
    have husable : ∀ c ∈ q.contents, c.isUsable := by
      intro c hmem
      cases c with
      | text t | line j => rfl
      | other kind =>
        obtain ⟨e, he⟩ := (carryOut_eq_error_iff w r hjump).mpr ⟨kind, hmem⟩
        cases he.symm.trans hids
    obtain ⟨hlength, hget⟩ := List.getElem?_eq_some_iff.mp hc
    have hsplit : q.contents = q.contents.take i ++ .line id :: q.contents.drop (i + 1) := by
      rw [← hget, ← List.drop_eq_getElem_cons hlength, List.take_append_drop]
    refine ⟨_, _, hsplit, fun c hmem => husable c (List.mem_of_mem_take hmem), ?_⟩
    obtain hblock | htake := List.mem_append.mp ((htakes.ne_iff hc hi).mp hne)
    · exact Or.inl hblock
    · obtain ⟨j, hj⟩ := List.mem_iff_getElem?.mp htake
      rw [List.getElem?_take] at hj
      split at hj
      · have hearlier := List.getElem?_eq_getElem (Nat.lt_trans ‹j < i› hlength)
        rw [htakes.eq_line hid hearlier hj] at hearlier
        exact Or.inr (List.mem_of_getElem? ((List.getElem?_take_of_lt ‹j < i›).trans hearlier))
      · cases hj

/-- A line that is handed to a report and not copied is appended itself. -/
theorem eq_of_mem_appended (hw : w.Proper r) (hid : id < w.lines.length) {q : Request}
    (hq : q.contents = [.line id]) (hfresh : id ∉ (w.report r).blocks) :
    ∀ x ∈ (w.carryOut r q).1.toOption.getD [], x = id := by
  intro x hx
  have hholds : ∀ c ∈ q.contents, w.Holds c := by
    rintro c hc i rfl
    rw [hq, List.mem_singleton] at hc
    cases hc
    exact hid
  have hjump : q.isJump = false := Request.isJump_of_mem (c := .line id) (by simp [hq])
  cases hids : (w.carryOut r q).1 with
  | error e =>
    rw [hids] at hx
    cases hx
  | ok ids =>
    replace hx : x ∈ ids := by rwa [hids] at hx
    obtain ⟨i, hi⟩ := List.mem_iff_getElem?.mp hx
    obtain rfl : i = 0 := by
      have := (List.getElem?_eq_some_iff.mp hi).1
      rw [(takesAll_carryOut hw hjump hholds hids).length, hq] at this
      exact Nat.lt_one_iff.mp this
    -- another line there would be a copy
    refine Decidable.byContradiction fun hne => hfresh ((copies_one_iff hq).mp ?_).2
    exact (copies_iff hw hjump hholds hids hid).mpr ⟨0, x, by rw [hq]; rfl, hi, hne⟩

end Workspace

end Marginalia
