import Marginalia.Proofs.Joining.Beneath
import Marginalia.Proofs.Joining.TextRow
import Marginalia.Proofs.Traversal
import Marginalia.Proofs.Workspace.Requests
import Mathlib.Data.Fintype.EquivFin
import Mathlib.Data.String.Basic

/-!
# Sums of texts and lines

Texts and lines are added up two at a time, and how a sum is bracketed decides which texts become
one text before they meet a line. It makes no difference: a sum with a line in it is the line that
has the texts of all operands one behind the other, their marks moved along with them, and the
number of the first operand, where a text counts as a line numbered one (`Line.joined`). That is so
for two operands (`Summand.add_eq_line`), and joining two such lines is joining the operands of both
(`Line.joined_append`).

In a session a sum is carried out by commands, one for each pair of brackets with a line in it
(`Session.SumsUp`). Each makes a new line, so whatever an operand stands for, it still stands for
when the sum is done (`Session.Keeps`).

Results:
* `Bracketing.total_eq`: the value of a bracketed sum.
* `Session.SumsUp.spec`: what any way of carrying out a sum leaves behind.
* `Session.exists_sumsUp`: a sum can be carried out.
* `Session.sumsUp_joined`: every way of bracketing a sum gives the same line.
-/

namespace Marginalia

/-- A sum of operands, with its brackets. -/
inductive Bracketing (α : Type) where
  | operand (a : α)
  | sum (left right : Bracketing α)
  deriving Repr

namespace Bracketing

variable {α : Type}

/-- The operands of a sum, from left to right. -/
def operands : Bracketing α → List α
  | operand a => [a]
  | sum left right => left.operands ++ right.operands

theorem operands_ne_nil : ∀ b : Bracketing α, b.operands ≠ []
  | operand _ => List.cons_ne_nil _ _
  | sum left _ => List.append_ne_nil_of_left_ne_nil left.operands_ne_nil _

/-- The value of a sum of texts and lines. -/
def total : Bracketing Summand → Summand
  | operand a => a
  | sum left right => left.total.add right.total

end Bracketing

/-! ## Marks that are moved along more than once -/

theorem Span.shift_shift (s : Span) (m n : Int) : (s.shift m).shift n = s.shift (m + n) := by
  simp only [shift, Int.add_assoc]

theorem Span.shift_zero (s : Span) : s.shift 0 = s := by
  simp only [shift, Int.add_zero]

theorem Tint.shift_shift (t : Tint) (m n : Int) : (t.shift m).shift n = t.shift (m + n) := by
  simp only [shift, Span.shift_shift]

theorem Tint.shift_zero (t : Tint) : t.shift 0 = t := by
  simp only [shift, Span.shift_zero]

theorem Underline.shift_shift (u : Underline) (m n : Int) :
    (u.shift m).shift n = u.shift (m + n) := by
  simp only [shift, Span.shift_shift]

theorem Underline.shift_zero (u : Underline) : u.shift 0 = u := by
  simp only [shift, Span.shift_zero]

namespace Summand

/-- A summand as a line: a text becomes a line with the number one and nothing on it. -/
def toLine : Summand → Line
  | text t => Line.ofText t
  | line l => l

/-- The summand is a line. -/
def isLine : Summand → Bool
  | text _ => false
  | line _ => true

/-- The texts of summands, one behind the other. -/
def texts (as : List Summand) : Text := as.flatMap (·.toLine.text)

theorem texts_append (as bs : List Summand) : texts (as ++ bs) = texts as ++ texts bs :=
  List.flatMap_append

section Placed

variable {β : Type} (marks : Line → List β) (shift : β → Int → β)

/-- The marks of summands, each moved along by an offset and by the texts of the summands before. -/
def placed : (offset : Nat) → List Summand → List β
  | _, [] => []
  | offset, a :: rest =>
    (marks a.toLine).map (shift · offset) ++ placed (offset + a.toLine.text.length) rest

theorem placed_append (offset : Nat) (as bs : List Summand) :
    placed marks shift offset (as ++ bs) =
      placed marks shift offset as ++ placed marks shift (offset + (texts as).length) bs := by
  induction as generalizing offset with
  | nil => rfl
  | cons a as ih =>
    have hlength : (texts (a :: as)).length = a.toLine.text.length + (texts as).length := by
      rw [texts, List.flatMap_cons, List.length_append]
      rfl
    rw [List.cons_append, placed, ih, placed, List.append_assoc, hlength, Nat.add_assoc]

variable {marks shift}

/-- Marks that are moved along twice are moved along by the sum of both. -/
theorem map_placed (hshift : ∀ (x : β) (m n : Int), shift (shift x m) n = shift x (m + n))
    (n offset : Nat) (as : List Summand) :
    (placed marks shift offset as).map (shift · n) = placed marks shift (n + offset) as := by
  induction as generalizing offset with
  | nil => rfl
  | cons a as ih =>
    have hmarks : ((marks a.toLine).map (shift · offset)).map (shift · n) =
        (marks a.toLine).map (shift · ((n + offset : Nat) : Int)) := by
      rw [List.map_map]
      refine List.map_congr_left fun x _ => ?_
      rw [Function.comp_apply, hshift, Int.natCast_add, Int.add_comm]
    rw [placed, List.map_append, hmarks, ih, placed, Nat.add_assoc]

theorem placed_eq_nil {offset : Nat} {as : List Summand} (h : ∀ a ∈ as, marks a.toLine = []) :
    placed marks shift offset as = [] := by
  induction as generalizing offset with
  | nil => rfl
  | cons a as ih =>
    rw [placed, h a List.mem_cons_self, ih fun b hb => h b (List.mem_cons_of_mem a hb)]
    rfl

end Placed

end Summand

namespace Line

/-- The line that operands add up to: their texts one behind the other, the marks of each moved
along by the texts before it, and the number of the first. -/
def joined (as : List Summand) : Line where
  text := Summand.texts as
  numbered := as.head?.elim true (·.toLine.numbered)
  number := as.head?.elim 1 (·.toLine.number)
  tints := Summand.placed Line.tints Tint.shift 0 as
  underlines := Summand.placed Line.underlines Underline.shift 0 as

theorem joined_singleton (a : Summand) : joined [a] = a.toLine := by
  simp [joined, Summand.texts, Summand.placed, Tint.shift_zero, Underline.shift_zero]

/-- **The line of some operands and others** is the lines of both joined. -/
theorem joined_append {as : List Summand} (hne : as ≠ []) (bs : List Summand) :
    joined (as ++ bs) = joined as ++ joined bs := by
  have hfirst : (as ++ bs).head? = as.head? := List.head?_append_of_ne_nil as hne
  have htints : Summand.placed Line.tints Tint.shift 0 (as ++ bs) =
      (joined as).tints ++ (joined bs).tints.map (·.shift (Summand.texts as).length) := by
    rw [Summand.placed_append, Nat.zero_add]
    exact congrArg _ (Summand.map_placed Tint.shift_shift _ 0 bs).symm
  have hunderlines : Summand.placed Line.underlines Underline.shift 0 (as ++ bs) =
      (joined as).underlines ++ (joined bs).underlines.map (·.shift (Summand.texts as).length) := by
    rw [Summand.placed_append, Nat.zero_add]
    exact congrArg _ (Summand.map_placed Underline.shift_shift _ 0 bs).symm
  rw [joined, hfirst, htints, hunderlines, Summand.texts_append]
  rfl

/-- Operands that are all texts add up to their text, numbered one. -/
theorem joined_of_texts {as : List Summand} (h : ∀ a ∈ as, a.isLine = false) :
    joined as = ofText (Summand.texts as) := by
  have htext : ∀ a ∈ as, ∃ t, a = .text t := by
    intro a ha
    cases a with
    | text t => exact ⟨t, rfl⟩
    | line l => cases h _ ha
  have htints : Summand.placed Line.tints Tint.shift 0 as = [] := by
    refine Summand.placed_eq_nil fun a ha => ?_
    obtain ⟨t, rfl⟩ := htext a ha
    rfl
  have hunderlines : Summand.placed Line.underlines Underline.shift 0 as = [] := by
    refine Summand.placed_eq_nil fun a ha => ?_
    obtain ⟨t, rfl⟩ := htext a ha
    rfl
  have hfirst : as.head?.elim true (·.toLine.numbered) = true ∧
      as.head?.elim 1 (·.toLine.number) = 1 := by
    cases as with
    | nil => exact ⟨rfl, rfl⟩
    | cons a rest =>
      obtain ⟨t, rfl⟩ := htext a List.mem_cons_self
      exact ⟨rfl, rfl⟩
  rw [joined, htints, hunderlines, hfirst.1, hfirst.2]
  rfl

end Line

namespace Summand

/-- What operands add up to: a text if all of them are texts, and else a line. -/
def ofAll (as : List Summand) : Summand :=
  if as.any isLine then .line (Line.joined as) else .text (texts as)

theorem ofAll_singleton (a : Summand) : ofAll [a] = a := by
  cases a with
  | text t => simp [ofAll, isLine, texts, toLine, Line.ofText]
  | line l => simp [ofAll, isLine, Line.joined_singleton, toLine]

/-- **A sum of two with a line in it** is their lines joined. -/
theorem add_eq_line {a b : Summand} (h : (a.isLine || b.isLine) = true) :
    a.add b = .line (a.toLine ++ b.toLine) := by
  cases a <;> cases b
  · cases h
  · rfl
  · rfl
  · rfl

theorem isLine_ofAll (as : List Summand) : (ofAll as).isLine = as.any isLine := by
  unfold ofAll
  split
  · rename_i h
    rw [h]
    rfl
  · rename_i h
    rw [Bool.not_eq_true] at h
    rw [h]
    rfl

theorem toLine_ofAll (as : List Summand) : (ofAll as).toLine = Line.joined as := by
  unfold ofAll
  split
  · rfl
  · rename_i h
    rw [Bool.not_eq_true, List.any_eq_false] at h
    exact (Line.joined_of_texts fun a ha => Bool.not_eq_true _ ▸ h a ha).symm

/-- **The sum of what some operands add up to and of what others do** is what all of them do. -/
theorem ofAll_append {as : List Summand} (hne : as ≠ []) (bs : List Summand) :
    (ofAll as).add (ofAll bs) = ofAll (as ++ bs) := by
  by_cases h : (as.any isLine || bs.any isLine) = true
  · rw [add_eq_line (by rw [isLine_ofAll, isLine_ofAll, h]), toLine_ofAll, toLine_ofAll,
      ← Line.joined_append hne, ofAll, List.any_append, if_pos h]
  · rw [ofAll, ofAll, ofAll, List.any_append, if_neg h]
    rw [Bool.not_eq_true, Bool.or_eq_false_iff] at h
    rw [h.1, h.2]
    simp [add, texts]

end Summand

/-- **The value of a bracketed sum** does not depend on its brackets. -/
theorem Bracketing.total_eq : ∀ b : Bracketing Summand, b.total = Summand.ofAll b.operands
  | operand a => (Summand.ofAll_singleton a).symm
  | sum left right => by
    rw [total, left.total_eq, right.total_eq, Summand.ofAll_append left.operands_ne_nil, operands]

namespace Session

variable {s s' s'' : Session} {o : Operand} {a : Summand}

/-! ## What operands stand for -/

/-- An operand stands for a text, which it is, or for the line that it names. -/
inductive Denotes (s : Session) : Operand → Summand → Prop
  | text (t : Text) : Denotes s (.text t) (.text t)
  | line {name : String} {id : LineId} (hname : s.lineId name = .ok id)
    (hid : id < s.space.lines.length) : Denotes s (.line name) (.line (s.space.line id))

/-- A session keeps what there was: there may be more lines and more names, but nothing else is
changed, and no name that was in use stands for anything else. -/
structure Keeps (s s' : Session) : Prop where
  space : s.space.Extends s'.space
  names : ∀ name id, s.lineId name = .ok id → s'.lineId name = .ok id
  reports : s'.reports = s.reports
  sources : s'.sources = s.sources

theorem Keeps.refl (s : Session) : s.Keeps s := ⟨.refl _, fun _ _ h => h, rfl, rfl⟩

theorem Keeps.trans (h : s.Keeps s') (h' : s'.Keeps s'') : s.Keeps s'' where
  space := h.space.trans h'.space
  names name id hname := h'.names name id (h.names name id hname)
  reports := h'.reports.trans h.reports
  sources := h'.sources.trans h.sources

/-- **What an operand stands for** it goes on to stand for. -/
theorem Denotes.mono (h : s.Denotes o a) (hkeeps : s.Keeps s') : s'.Denotes o a := by
  cases h with
  | text t => exact .text t
  | line hname hid =>
    rw [← hkeeps.space.lines _ hid]
    exact .line (hkeeps.names _ _ hname) (Nat.lt_of_lt_of_le hid hkeeps.space.length)

theorem Denotes.eq_of_text {t : Text} (h : s.Denotes (.text t) a) : a = .text t := by
  cases h
  rfl

theorem Denotes.eq_of_denotes_text {t : Text} (h : s.Denotes o (.text t)) : o = .text t := by
  cases h
  rfl

theorem Denotes.summandOf (h : s.Denotes o a) : s.summandOf o = .ok (some a) := by
  cases h with
  | text t => rfl
  | line hname hid =>
    rw [Session.summandOf, Session.line, hname]
    rfl

/-! ## Carrying out a sum -/

/-- A sum is carried out from its innermost brackets on. Texts add up to a text; whatever has a line
in it is added by a command that gives the new line a name which is not yet in use. -/
inductive SumsUp : Session → Bracketing Operand → Session → Operand → Prop
  | operand (s : Session) (o : Operand) : SumsUp s (.operand o) s o
  | texts {s s₁ s₂ : Session} {left right : Bracketing Operand} {t u : Text}
    (hleft : SumsUp s left s₁ (.text t)) (hright : SumsUp s₁ right s₂ (.text u)) :
    SumsUp s (.sum left right) s₂ (.text (t ++ u))
  | lines {s s₁ s₂ s₃ : Session} {left right : Bracketing Operand} {x y : Operand} {name : String}
    {reply : Reply} (hleft : SumsUp s left s₁ x) (hright : SumsUp s₁ right s₂ y)
    (hnew : s₂.lines.lookup name = none)
    (hstep : s₂.step (.line (.add x y (some name))) = (.ok reply, s₃)) :
    SumsUp s (.sum left right) s₃ (.line name)

variable {x y : Operand} {b : Summand}

theorem sum_of_denotes (hx : s.Denotes x a) (hy : s.Denotes y b) :
    s.sum x y = match a.add b with
      | .line l => .ok l
      | .text _ => .error (unsummable .text .text) := by
  rw [sum, hx.summandOf, hy.summandOf]
  cases h : a.add b <;> simp only [bind, Except.bind, h] <;> rfl

/-- **A sum of two that is a line** is stored as a new line. -/
theorem step_add (hx : s.Denotes x a) (hy : s.Denotes y b) {l : Line} (hsum : a.add b = .line l)
    (saveAs : Option String) : s.step (.line (.add x y saveAs)) =
      (.ok { answer := .line l }, s.withLine saveAs l) := by
  have hl := sum_of_denotes hx hy
  rw [hsum] at hl
  rw [step, perform, performLine, run_ask_bind, hl]
  rfl

theorem step_add_texts (hx : s.Denotes x a) (hy : s.Denotes y b) {t : Text}
    (hsum : a.add b = .text t) (saveAs : Option String) :
    s.step (.line (.add x y saveAs)) = (.error (unsummable .text .text), s) := by
  have hl := sum_of_denotes hx hy
  rw [hsum] at hl
  rw [step, perform, performLine, run_ask_bind, hl]

/-- A new line under a new name leaves everything else as it was. -/
theorem keeps_withLine {name : String} (hnew : s.lines.lookup name = none) (l : Line) :
    s.Keeps (s.withLine (some name) l) where
  space := Workspace.extends_newLine s.space l
  names other id hname := by
    have hother : other ≠ name := by
      rintro rfl
      rw [lineId, Names.find, hnew] at hname
      cases hname
    have hlookup : (s.lines.bind (some name) s.space.lines.length).lookup other =
        s.lines.lookup other := by
      rw [Names.bind, List.lookup_cons, beq_false_of_ne hother]
    rw [lineId, Names.find] at hname ⊢
    rwa [withLine, hlookup]
  reports := rfl
  sources := rfl

theorem denotes_withLine (s : Session) (name : String) (l : Line) :
    (s.withLine (some name) l).Denotes (.line name) (.line l) := by
  have hname : (s.withLine (some name) l).lineId name =
      .ok s.space.lines.length := by
    rw [lineId, Names.find, withLine, Names.bind, List.lookup_cons_self]
  have hline :
      (s.withLine (some name) l).space.line s.space.lines.length = l := by
    simp [withLine, Workspace.newLine, Workspace.line]
  have hid : s.space.lines.length <
      (s.withLine (some name) l).space.lines.length := by
    simp [withLine, Workspace.newLine]
  have hdenotes := Denotes.line hname hid
  rwa [hline] at hdenotes

theorem ne_nil_of_forall₂_operands {sum : Bracketing Operand} {as : List Summand}
    (h : List.Forall₂ s.Denotes sum.operands as) : as ≠ [] := by
  rintro rfl
  exact sum.operands_ne_nil (List.forall₂_nil_right_iff.mp h)

/-- **Whatever way a sum is carried out**, the session keeps what there was, and the outcome stands
for what the operands add up to. -/
theorem SumsUp.spec {sum : Bracketing Operand} (h : SumsUp s sum s' o) : ∀ {as : List Summand},
    List.Forall₂ s.Denotes sum.operands as → s.Keeps s' ∧ s'.Denotes o (Summand.ofAll as) := by
  induction h with
  | operand s o =>
    intro as has
    obtain ⟨a, rest, ha, hnil, rfl⟩ := List.forall₂_cons_left_iff.mp has
    rw [List.forall₂_nil_left_iff.mp hnil, Summand.ofAll_singleton]
    exact ⟨Keeps.refl s, ha⟩
  | @texts s s₁ s₂ left right t u hleft hright ihleft ihright =>
    intro as has
    obtain ⟨as₁, as₂, h₁, h₂, rfl⟩ := exists_of_forall₂_append has
    obtain ⟨hkeeps₁, ht⟩ := ihleft h₁
    obtain ⟨hkeeps₂, hu⟩ := ihright (h₂.imp fun _ _ hd => hd.mono hkeeps₁)
    refine ⟨hkeeps₁.trans hkeeps₂, ?_⟩
    rw [← Summand.ofAll_append (ne_nil_of_forall₂_operands h₁), ht.eq_of_text, hu.eq_of_text]
    exact .text _
  | @lines s s₁ s₂ s₃ left right x y name reply hleft hright hnew hstep ihleft ihright =>
    intro as has
    obtain ⟨as₁, as₂, h₁, h₂, rfl⟩ := exists_of_forall₂_append has
    obtain ⟨hkeeps₁, hx⟩ := ihleft h₁
    obtain ⟨hkeeps₂, hy⟩ := ihright (h₂.imp fun _ _ hd => hd.mono hkeeps₁)
    rw [← Summand.ofAll_append (ne_nil_of_forall₂_operands h₁)]
    cases hsum : (Summand.ofAll as₁).add (Summand.ofAll as₂) with
    | text t =>
      rw [step_add_texts (hx.mono hkeeps₂) hy hsum] at hstep
      cases hstep
    | line l =>
      rw [step_add (hx.mono hkeeps₂) hy hsum] at hstep
      cases hstep
      exact ⟨(hkeeps₁.trans hkeeps₂).trans (keeps_withLine hnew l), denotes_withLine s₂ name l⟩

/-- There is always a name that is not yet in use. -/
theorem exists_new_name (s : Session) : ∃ name, s.lines.lookup name = none := by
  obtain ⟨name, hname⟩ := Infinite.exists_notMem_finset (s.lines.map Prod.fst).toFinset
  refine ⟨name, List.lookup_eq_none_iff.mpr fun p hp => bne_iff_ne.mpr ?_⟩
  rintro rfl
  exact hname (List.mem_toFinset.mpr (List.mem_map_of_mem hp))

/-- **A sum can be carried out** if each of its operands stands for something. -/
theorem exists_sumsUp : ∀ (sum : Bracketing Operand) {s : Session} {as : List Summand},
    List.Forall₂ s.Denotes sum.operands as → ∃ s' o, SumsUp s sum s' o
  | .operand o, s, _, _ => ⟨s, o, .operand s o⟩
  | .sum left right, s, as, has => by
    obtain ⟨as₁, as₂, h₁, h₂, -⟩ := exists_of_forall₂_append has
    obtain ⟨s₁, x, hleft⟩ := exists_sumsUp left h₁
    obtain ⟨hkeeps₁, hx⟩ := hleft.spec h₁
    have h₂' := h₂.imp fun _ _ hd => Denotes.mono hd hkeeps₁
    obtain ⟨s₂, y, hright⟩ := exists_sumsUp right h₂'
    obtain ⟨hkeeps₂, hy⟩ := hright.spec h₂'
    cases hsum : (Summand.ofAll as₁).add (Summand.ofAll as₂) with
    | text t =>
      -- Only two texts add up to a text.
      cases ha : Summand.ofAll as₁ <;> cases hb : Summand.ofAll as₂ <;> rw [ha, hb] at hsum <;>
        cases hsum
      rw [ha] at hx
      rw [hb] at hy
      rw [hx.eq_of_denotes_text] at hleft
      rw [hy.eq_of_denotes_text] at hright
      exact ⟨s₂, _, .texts hleft hright⟩
    | line l =>
      obtain ⟨name, hnew⟩ := s₂.exists_new_name
      exact ⟨_, _, .lines hleft hright hnew (step_add (hx.mono hkeeps₂) hy hsum (some name))⟩

/-- **Every way of bracketing a sum gives the same line.** Operands that stand for texts and lines,
one line at least among them, can be added up in a session with any brackets; and however that is
done, the outcome stands for the line with the texts of all operands, the marks of each moved along
by the texts before it, and the number of the first operand. What the operands stand for is not
changed by it, nor is anything else that there was. A line with an empty text behind it is the same
line. -/
theorem sumsUp_joined {s : Session} {sum : Bracketing Operand} {as : List Summand}
    (hoperands : List.Forall₂ s.Denotes sum.operands as) (hline : ∃ a ∈ as, a.isLine) :
    (∃ s' o, SumsUp s sum s' o) ∧
    (∀ s' o, SumsUp s sum s' o → s'.Denotes o (.line (Line.joined as)) ∧
      (∀ x a, s.Denotes x a → s'.Denotes x a) ∧ s.Keeps s') ∧
    ∀ l, Line.joined [.line l, .text []] = l := by
  refine ⟨exists_sumsUp sum hoperands, fun s' o h => ?_, fun l => ?_⟩
  · obtain ⟨hkeeps, ho⟩ := h.spec hoperands
    rw [Summand.ofAll, if_pos (List.any_eq_true.mpr hline)] at ho
    exact ⟨ho, fun x a hx => hx.mono hkeeps, hkeeps⟩
  · have hnothing : Line.joined [.text []] = Line.ofText [] := Line.joined_singleton _
    have hsame : l ++ Line.ofText [] = l := by
      cases l
      show Line.mk _ _ _ _ _ = _
      simp [Line.ofText]
    rw [← List.singleton_append, Line.joined_append (List.cons_ne_nil _ _), Line.joined_singleton,
      hnothing]
    exact hsame

/-- Two texts add up before they meet a line, which is there twice and bears a mark. -/
theorem sumsUp_joined_same_line_twice :
    let l : Line := { text := ['c', 'd'], number := 7, underlines := [{ start := 1, stop := 2 }] }
    let s : Session := { space := { lines := [l] }, lines := [("l", 0)] }
    let sum : Bracketing Operand := .sum (.sum (.operand (.text ['a'])) (.operand (.text ['b'])))
      (.sum (.operand (.line "l")) (.operand (.line "l")))
    let as : List Summand := [.text ['a'], .text ['b'], .line l, .line l]
    (List.Forall₂ s.Denotes sum.operands as ∧ ∃ a ∈ as, a.isLine) ∧
      ∃ s' o, SumsUp s sum s' o ∧ s'.Denotes o (.line {
        text := ['a', 'b', 'c', 'd', 'c', 'd'], numbered := true, number := 1
        underlines := [{ start := 3, stop := 4 }, { start := 5, stop := 6 }] }) ∧
        s'.Denotes (.line "l") (.line l) := by
  intro l s sum as
  have hname : s.lineId "l" = .ok 0 := rfl
  have hl : s.Denotes (.line "l") (.line l) := .line hname (by decide)
  have hoperands : List.Forall₂ s.Denotes sum.operands as :=
    .cons (.text _) (.cons (.text _) (.cons hl (.cons hl .nil)))
  have hline : ∃ a ∈ as, a.isLine := ⟨.line l, by decide, rfl⟩
  obtain ⟨⟨s', o, hsum⟩, hspec, -⟩ := sumsUp_joined hoperands hline
  obtain ⟨ho, hkept, -⟩ := hspec s' o hsum
  exact ⟨⟨hoperands, hline⟩, s', o, hsum, ho, hkept _ _ hl⟩

end Session

end Marginalia
