import Marginalia.Proofs.Source.Positions

/-!
# The lines of a text

A text falls into lines in one way only: the terminators of a convention stand between texts that
have none of them inside, and a carriage return that ends a line has no line feed behind it where
the two together are one break (`Convention.Splits`). The cut along the text is read off such a
decomposition from the front (`Convention.cut_append`), so whatever splits a text is what it is cut
into.

Results:
* `Convention.splits_cut`: what a text is cut into splits it.
* `Convention.eq_cut_of_splits`: nothing else does, unless line feeds end lines where carriage
  returns do not.
* `Source.rowText_splits`: the lines of a source, by their numbers.
-/

namespace Marginalia

/-- Texts with what stands between each two of them. -/
def weave : List Text → List Text → Text
  | t :: texts, b :: breaks => t ++ b ++ weave texts breaks
  | texts, _ => texts.flatten

namespace Convention

/-- The texts that end a line. -/
def terminators (k : Convention) : List Text :=
  (if k.pair then [['\r', '\n']] else []) ++ k.singles.map ([·])

/-- Nothing ends a line inside a text. -/
def IsLine (k : Convention) (t : Text) : Prop := ∀ b ∈ k.terminators, ¬ b <:+: t

/-- Texts are the lines of a content and breaks are what ends them: they make up the content, each
break is a terminator, and there is none inside a line. Where a carriage return with its line feed
is one break, no break is the carriage return alone of such a pair. -/
structure Splits (k : Convention) (content : Text) (texts breaks : List Text) : Prop where
  count : texts.length = breaks.length + 1
  joined : weave texts breaks = content
  ends : ∀ b ∈ breaks, b ∈ k.terminators
  clean : ∀ t ∈ texts, k.IsLine t
  pairs : k.pair → ∀ j, breaks[j]? = some ['\r'] →
    (weave (texts.drop (j + 1)) (breaks.drop (j + 1))).head? ≠ some '\n'

example : unicode.terminators = ['\r', '\n'] :: [['\n'], ['\x0b'], ['\x0c'], ['\r'], ['\x1c'],
    ['\x1d'], ['\x1e'], ['\u0085'], ['\u2028'], ['\u2029']] := rfl

variable {k : Convention} {content t b rest : Text} {texts breaks : List Text}

theorem mem_terminators_iff :
    b ∈ k.terminators ↔ k.pair ∧ b = ['\r', '\n'] ∨ ∃ c ∈ k.singles, b = [c] := by
  unfold terminators
  by_cases h : k.pair <;> simp [h, eq_comm]

theorem isLine_nil (k : Convention) : k.IsLine [] := by
  intro b hb hin
  rw [List.infix_nil.mp hin, mem_terminators_iff] at hb
  simp at hb

theorem IsLine.not_mem_singles {c : Char} (h : k.IsLine t) (hc : c ∈ t) : c ∉ k.singles := by
  intro hs
  obtain ⟨u, v, rfl⟩ := List.append_of_mem hc
  exact h [c] (mem_terminators_iff.mpr (Or.inr ⟨c, hs, rfl⟩)) ⟨u, v, by simp⟩

theorem IsLine.tail {c : Char} (h : k.IsLine (c :: t)) : k.IsLine t :=
  fun b hb hin => h b hb (hin.trans (List.suffix_cons c t).isInfix)

/-- A character in front of a line is part of it, unless it ends a line itself or makes a pair with
the one behind it. -/
theorem IsLine.cons {c : Char} (h : k.IsLine t) (hc : c ∉ k.singles)
    (hpair : ¬ (k.pair ∧ c = '\r' ∧ t.head? = some '\n')) : k.IsLine (c :: t) := by
  intro b hb hin
  rcases List.infix_cons_iff.mp hin with hpre | hin
  · rcases mem_terminators_iff.mp hb with ⟨hk, rfl⟩ | ⟨d, hd, rfl⟩
    · obtain ⟨rfl, hlf⟩ := List.cons_prefix_cons.mp hpre
      obtain ⟨u, rfl⟩ := hlf
      exact hpair ⟨hk, rfl, rfl⟩
    · obtain ⟨rfl, -⟩ := List.cons_prefix_cons.mp hpre
      exact hc hd
  · exact h b hb hin

/-! ## One line at a time -/

theorem splits_singleton (h : k.IsLine t) : k.Splits t [t] [] where
  count := rfl
  joined := by simp [weave]
  ends := by simp
  clean := by simpa using h
  pairs := by simp

/-- One more line in front. -/
theorem Splits.cons (h : k.Splits rest texts breaks) (ht : k.IsLine t) (hb : b ∈ k.terminators)
    (hpair : k.pair → b = ['\r'] → rest.head? ≠ some '\n') :
    k.Splits (t ++ b ++ rest) (t :: texts) (b :: breaks) where
  count := by simp [h.count]
  joined := by rw [weave, h.joined]
  ends := by simpa [hb] using h.ends
  clean := by simpa using ⟨ht, h.clean⟩
  pairs := by
    intro hk j hj
    cases j with
    | zero =>
      have hb : b = ['\r'] := by simpa using hj
      simpa [h.joined] using hpair hk hb
    | succ j => simpa using h.pairs hk j hj

/-- The first line of several, and what is left behind its break. -/
theorem Splits.uncons (h : k.Splits content (t :: texts) (b :: breaks)) :
    k.IsLine t ∧ b ∈ k.terminators ∧ ∃ rest, content = t ++ b ++ rest ∧
      (k.pair → b = ['\r'] → rest.head? ≠ some '\n') ∧ k.Splits rest texts breaks := by
  refine ⟨h.clean t List.mem_cons_self, h.ends b List.mem_cons_self, weave texts breaks,
    h.joined.symm, fun hk hb => ?_, ?_⟩
  · simpa using h.pairs hk 0 (by simp [hb])
  · refine ⟨by simpa using h.count, rfl, fun c hc => h.ends c (List.mem_cons_of_mem b hc),
      fun u hu => h.clean u (List.mem_cons_of_mem t hu), fun hk j hj => ?_⟩
    simpa using h.pairs hk (j + 1) (by simpa using hj)

/-! ## What a text is cut into splits it -/

/-- A character in front that neither ends a line nor makes a pair belongs to the first line. -/
theorem Splits.cons_char {c : Char} (h : k.Splits content (t :: texts) breaks)
    (hc : c ∉ k.singles) (hpair : ¬ (k.pair ∧ c = '\r' ∧ content.head? = some '\n')) :
    k.Splits (c :: content) ((c :: t) :: texts) breaks := by
  cases breaks with
  | nil =>
    obtain rfl : texts = [] := by simpa using h.count
    obtain rfl : t = content := by simpa [weave] using h.joined
    exact splits_singleton (IsLine.cons (h.clean t List.mem_cons_self) hc hpair)
  | cons b breaks =>
    obtain ⟨ht, hb, rest, rfl, hcr, hrest⟩ := h.uncons
    refine hrest.cons (ht.cons hc fun ⟨hk, hc, hlf⟩ => hpair ⟨hk, hc, ?_⟩) hb hcr
    cases t with
    | nil => cases hlf
    | cons d t => exact hlf

/-- **What a text is cut into splits it.** -/
theorem splits_cut (k : Convention) : ∀ content : Text,
    k.Splits content ((k.cut content).map (·.text)) ((k.cut content).dropLast.map (·.ending))
  | [] => splits_singleton k.isLine_nil
  | [c] => by
    rw [cut]
    split
    · rename_i hc
      exact (splits_singleton k.isLine_nil).cons k.isLine_nil
        (mem_terminators_iff.mpr (Or.inr ⟨c, hc, rfl⟩)) (by simp)
    · rename_i hc
      exact splits_singleton (k.isLine_nil.cons hc (by simp))
  | c :: d :: rest => by
    have hsplit : ∀ (l : SourceLine) {ls : List SourceLine}, ls ≠ [] →
        (l :: ls).dropLast.map (·.ending) = l.ending :: ls.dropLast.map (·.ending) := by
      intro l ls hne
      rw [List.dropLast_cons_of_ne_nil hne, List.map_cons]
    rw [cut]
    split
    · rename_i hpair
      rw [hsplit _ (k.ended_cut rest).ne_nil, hpair.2.1, hpair.2.2]
      exact (k.splits_cut rest).cons k.isLine_nil
        (mem_terminators_iff.mpr (Or.inl ⟨hpair.1, rfl⟩)) (by simp)
    · rename_i hpair
      split
      · rename_i hc
        rw [hsplit _ (k.ended_cut (d :: rest)).ne_nil]
        refine (k.splits_cut (d :: rest)).cons k.isLine_nil
          (mem_terminators_iff.mpr (Or.inr ⟨c, hc, rfl⟩)) fun hk hcr hlf => hpair ⟨hk, ?_, ?_⟩
        · simpa using hcr
        · simpa using hlf
      · rename_i hc
        have ih := k.splits_cut (d :: rest)
        -- The character goes in front of the first line, whether or not that is the only one.
        cases hcut : k.cut (d :: rest) with
        | nil => exact absurd hcut (k.ended_cut (d :: rest)).ne_nil
        | cons l ls =>
          rw [hcut] at ih
          cases ls with
          | nil => exact ih.cons_char hc (by simpa using hpair)
          | cons next ls => exact ih.cons_char hc (by simpa using hpair)

/-! ## Nothing else splits it -/

/-- A line feed ends a line by itself only where a carriage return does, if the two together are one
break. -/
def Coherent (k : Convention) : Prop := k.pair → '\n' ∈ k.singles → '\r' ∈ k.singles

theorem cut_of_isLine : ∀ {t : Text}, k.IsLine t → k.cut t = [{ text := t }]
  | [], _ => rfl
  | [c], h => by rw [cut, if_neg (h.not_mem_singles List.mem_cons_self)]
  | c :: d :: t, h => by
    have hpair : ¬ (k.pair ∧ c = '\r' ∧ d = '\n') := by
      rintro ⟨hk, rfl, rfl⟩
      exact h ['\r', '\n'] (mem_terminators_iff.mpr (Or.inl ⟨hk, rfl⟩)) ⟨[], t, rfl⟩
    rw [cut, if_neg hpair, if_neg (h.not_mem_singles List.mem_cons_self), cut_of_isLine h.tail]
    rfl

/-- **A line with its break is cut off whole.** -/
theorem cut_append (hk : k.Coherent) (hb : b ∈ k.terminators)
    (hpair : k.pair → b = ['\r'] → rest.head? ≠ some '\n') : ∀ {t : Text}, k.IsLine t →
    k.cut (t ++ b ++ rest) = { text := t, ending := b } :: k.cut rest
  | [], _ => by
    rcases mem_terminators_iff.mp hb with ⟨hpairs, rfl⟩ | ⟨c, hc, rfl⟩
    · show k.cut ('\r' :: '\n' :: rest) = _
      rw [cut, if_pos ⟨hpairs, rfl, rfl⟩]
    · cases rest with
      | nil =>
        have hcut : k.cut [c] = [{ ending := [c] }, {}] := by rw [cut, if_pos hc]
        exact hcut
      | cons d rest =>
        show k.cut (c :: d :: rest) = _
        have hlone : ¬ (k.pair ∧ c = '\r' ∧ d = '\n') := by
          rintro ⟨hpairs, rfl, rfl⟩
          exact hpair hpairs rfl rfl
        rw [cut, if_neg hlone, if_pos hc]
  | c :: t, ht => by
    have hc : c ∉ k.singles := ht.not_mem_singles List.mem_cons_self
    have hne : t ++ b ++ rest ≠ [] := by
      rcases mem_terminators_iff.mp hb with ⟨-, rfl⟩ | ⟨c, -, rfl⟩ <;> simp
    obtain ⟨d, u, hdu⟩ := List.exists_cons_of_ne_nil hne
    -- A line feed behind the carriage return would be in the line, or else a break by itself.
    have hlone : ¬ (k.pair ∧ c = '\r' ∧ d = '\n') := by
      rintro ⟨hpairs, rfl, rfl⟩
      cases t with
      | cons e t =>
        obtain rfl : e = '\n' := (List.cons.inj hdu).1
        exact ht ['\r', '\n'] (mem_terminators_iff.mpr (Or.inl ⟨hpairs, rfl⟩)) ⟨[], t, rfl⟩
      | nil =>
        rcases mem_terminators_iff.mp hb with ⟨-, rfl⟩ | ⟨e, he, rfl⟩
        · exact absurd (List.cons.inj hdu).1 (by decide)
        · obtain rfl : e = '\n' := (List.cons.inj hdu).1
          exact hc (hk hpairs he)
    rw [List.cons_append, List.cons_append, hdu, cut, if_neg hlone, if_neg hc, ← hdu,
      cut_append hk hb hpair ht.tail]
    rfl

/-- **Whatever splits a text is what it is cut into.** -/
theorem eq_cut_of_splits (hk : k.Coherent) : ∀ {texts breaks : List Text} {content : Text},
    k.Splits content texts breaks → texts = (k.cut content).map (·.text) ∧
      breaks = (k.cut content).dropLast.map (·.ending)
  | [], _, _, h => by
    have := h.count
    simp at this
  | t :: texts, [], content, h => by
    obtain rfl : texts = [] := by simpa using h.count
    obtain rfl : t = content := by simpa [weave] using h.joined
    rw [cut_of_isLine (h.clean t List.mem_cons_self)]
    exact ⟨rfl, rfl⟩
  | t :: texts, b :: breaks, content, h => by
    obtain ⟨ht, hb, rest, rfl, hpair, hrest⟩ := h.uncons
    obtain ⟨htexts, hbreaks⟩ := eq_cut_of_splits hk hrest
    rw [cut_append hk hb hpair ht, List.dropLast_cons_of_ne_nil (k.ended_cut rest).ne_nil,
      List.map_cons, List.map_cons, ← htexts, ← hbreaks]
    exact ⟨rfl, rfl⟩

theorem coherent_of_mem_byName {name : String} (h : (name, k) ∈ byName) : k.Coherent := by
  unfold byName at h
  simp only [List.mem_cons, Prod.mk.injEq, List.not_mem_nil, or_false] at h
  unfold Coherent
  rcases h with ⟨-, rfl⟩ | ⟨-, rfl⟩ | ⟨-, rfl⟩ | ⟨-, rfl⟩ | ⟨-, rfl⟩ <;> decide

theorem ofValue_of_mem_byName {name : String} (h : (name, k) ∈ byName) :
    ofValue (.text name.toList) = .ok k := by
  unfold byName at h
  simp only [List.mem_cons, Prod.mk.injEq, List.not_mem_nil, or_false] at h
  rcases h with ⟨rfl, rfl⟩ | ⟨rfl, rfl⟩ | ⟨rfl, rfl⟩ | ⟨rfl, rfl⟩ | ⟨rfl, rfl⟩ <;> rfl

end Convention

namespace Source

/-- A source is made of what it holds. -/
theorem make_eq_ok (s : Source) {name : String} (hk : (name, s.convention) ∈ Convention.byName) :
    Source.make s.content (.text name.toList) s.filename s.firstRow = .ok s := by
  rw [Source.make, Convention.ofValue_of_mem_byName hk]
  exact dif_pos s.fits

/-- **The lines of a source are the only ones that its content splits into.** Whatever convention is
named, a source is made whose lines, from the first number to the last, are texts with terminators
of the convention between them that make up the content: none of those texts has a terminator
inside, and no pair of carriage return and line feed is split where it is one break. There are no
other texts and breaks of which that is true. -/
theorem rowText_splits (s : Source) {name : String}
    (hk : (name, s.convention) ∈ Convention.byName) :
    Source.make s.content (.text name.toList) s.filename s.firstRow = .ok s ∧
      ∃ texts breaks : List Text, (texts.length : Int) = s.lastRow - s.firstRow + 1 ∧
        (∀ i (hi : i < texts.length), s.rowText (s.firstRow + i) = .ok texts[i]) ∧
        s.convention.Splits s.content texts breaks ∧
        ∀ texts' breaks', s.convention.Splits s.content texts' breaks' →
          texts' = texts ∧ breaks' = breaks := by
  refine ⟨s.make_eq_ok hk, s.lines.map (·.text), s.lines.dropLast.map (·.ending), ?_,
    fun i hi => ?_, s.convention.splits_cut s.content, fun texts breaks h =>
      Convention.eq_cut_of_splits (Convention.coherent_of_mem_byName hk) h⟩
  · have hlast : s.lastRow = s.firstRow + s.lines.length - 1 := rfl
    rw [List.length_map]
    omega
  · rw [List.length_map] at hi
    rw [List.getElem_map]
    exact rowText_eq_ok_iff.mpr ⟨i, s.lines[i], List.getElem?_eq_getElem hi, rfl, rfl⟩

/-- A carriage return by itself, a pair that is one break, and a line feed by itself. -/
theorem rowText_splits_mixed :
    let s : Source := { content := ['\r', '\r', '\n', '\n', 'a'] }
    ("normal", s.convention) ∈ Convention.byName ∧
      Source.make s.content (.text "normal".toList) none 1 = .ok s ∧
        ∃ texts breaks : List Text, (texts.length : Int) = s.lastRow - 1 + 1 ∧
          s.convention.Splits s.content texts breaks ∧
          texts = [[], [], [], ['a']] ∧ breaks = [['\r'], ['\r', '\n'], ['\n']] := by
  intro s
  have hk : ("normal", s.convention) ∈ Convention.byName := List.mem_cons_self
  obtain ⟨hs, texts, breaks, hcount, -, hsplits, honly⟩ := rowText_splits s hk
  obtain ⟨htexts, hbreaks⟩ := honly _ _ (s.convention.splits_cut s.content)
  exact ⟨hk, hs, texts, breaks, hcount, hsplits, htexts ▸ rfl, hbreaks ▸ rfl⟩

end Source

end Marginalia
