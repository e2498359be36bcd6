import Marginalia.Proofs.Digits
import Marginalia.Report.Numbering
import Mathlib.Data.List.Basic
import Mathlib.Logic.Function.Iterate

/-!
# Records of a numbering

A record lists what a numbering went through: the numbers that it gave and the jumps that it was
told to make. A record that a numbering really can go through (`Numbering.Replays`) has laws of its
own. Between two numbers the cursor stands where the last accepted jump led, or right behind the
first of them if there was none, so a number is no greater than the one before it only after a jump
that went so far back, and a smaller one only after a warning.

Results:
* `Numbering.Replays.last_eq`: the latest number of a record is what a warning is decided by.
* `Numbering.Replays.cursor_of_jumps`: where the cursor stands after jumps alone.
* `Numbering.Replays.pairwise_le`, `Numbering.Replays.pairwise_lt`: when the numbers of a record go
  up.
-/

namespace Marginalia

/-- What a numbering goes through: it gives a number, or it is told to move its cursor from where
that is to a target, which it accepts or does not, and with a warning or without. -/
inductive Event where
  | numbered (number : Int)
  | jump (cursor target : Int) (accepted warned : Bool)
  deriving DecidableEq, Repr

/-- The number that is given. -/
def Event.number? : Event → Option Int
  | numbered number => some number
  | jump .. => none

/-- The numbers that are given along a record. -/
def numbersOf (log : List Event) : List Int := log.filterMap Event.number?

namespace Numbering

/-- A jump to a target goes back before the latest number. -/
def GoesBack (n : Numbering) (target : Int) : Prop := ∃ last, n.last = some last ∧ target < last

theorem backwards?_eq_some_iff {n : Numbering} {target : Int} {b : Backwards} :
    n.backwards? target = some b ↔
      ∃ last, n.last = some last ∧ target < last ∧ b = ⟨target, last⟩ := by
  unfold backwards?
  cases n.last with
  | none => simp
  | some last =>
    by_cases h : target < last
    · simp [h, eq_comm]
    · simp [h]

theorem goesBack_iff {n : Numbering} {target : Int} :
    n.GoesBack target ↔ ∃ b, n.backwards? target = some b := by
  constructor
  · rintro ⟨last, hlast, hlt⟩
    exact ⟨_, backwards?_eq_some_iff.mpr ⟨last, hlast, hlt, rfl⟩⟩
  · rintro ⟨b, hb⟩
    obtain ⟨last, hlast, hlt, -⟩ := backwards?_eq_some_iff.mp hb
    exact ⟨last, hlast, hlt⟩

/-- **All that a jump is refused for**: its target, or the number that its warning would name, or
the count that its notice would give. -/
theorem refused_of_jump {n : Numbering} {target : Int} {tellSkip : Bool} {e : Fault}
    (h : n.jump target tellSkip = .error e) : target < 0 ∨
      (∃ last, n.last = some last ∧ target < last ∧ Text.digitLimit < Text.digitCount last) ∨
      n.started ∧ n.cursor + 1 < target ∧
        Text.digitLimit < Text.digitCount (target - n.cursor) := by
  refine or_iff_not_imp_left.mpr fun hneg => ?_
  have htarget : 0 ≤ target := Int.not_lt.mp hneg
  rw [jump_of_nonneg htarget] at h
  by_contra hshort
  simp only [not_or, not_exists, not_and, Nat.not_lt] at hshort
  have hwarning : (n.leap target tellSkip).warningExcess? = none := by
    refine Option.bind_eq_none_iff.mpr fun b hb => ?_
    obtain ⟨last, hlast, hlt, rfl⟩ := backwards?_eq_some_iff.mp hb
    have hlong := hshort.1 last hlast hlt
    have hsize : target.natAbs ≤ last.natAbs := by omega
    rw [Text.decimalsExcess?_eq_none_iff, Backwards.numbers, List.forall_mem_cons,
      List.forall_mem_singleton]
    exact ⟨Nat.le_trans (Text.digitCount_mono hsize) hlong, hlong⟩
  have hcount : (n.leap target tellSkip).skipped.bind Text.decimalExcess? = none := by
    refine Option.bind_eq_none_iff.mpr fun count hskip => ?_
    obtain ⟨-, hskip⟩ := Option.ite_none_right_eq_some.mp hskip
    obtain ⟨⟨hstarted, hfar⟩, hcount⟩ := Option.ite_none_right_eq_some.mp hskip
    cases hcount
    exact Text.decimalExcess?_eq_none_iff.mpr (hshort.2 hstarted hfar)
  rw [Jump.excess?, hwarning, hcount] at h
  cases h

/-- What is numbered from the cursor on has the number at the cursor first, and then what is
numbered after one line more. -/
theorem map_range_succ {β : Type} (n : Numbering) (f : Int → β) (k : Nat) :
    (List.range (k + 1)).map (fun i : Nat => f (n.cursor + i)) =
      f n.cursor :: (List.range k).map fun i : Nat => f (n.advance.cursor + i) := by
  have hhere : n.cursor + ((0 : Nat) : Int) = n.cursor := Int.add_zero _
  rw [List.range_succ_eq_map, List.map_cons, List.map_map, hhere]
  refine congrArg (f n.cursor :: ·) (List.map_congr_left fun i _ => congrArg f ?_)
  show n.cursor + ((i + 1 : Nat) : Int) = n.cursor + 1 + i
  omega

/-- A numbering goes through an event. A jump is refused if its target is negative, or if it goes
back and the number that its warning would name is too long, or if it leaves lines out and their
count is too long. -/
inductive Goes : Numbering → Event → Numbering → Prop
  | numbered (n : Numbering) : Goes n (.numbered n.cursor) n.advance
  | jump (n : Numbering) {target : Int} {warned : Bool} (htarget : 0 ≤ target)
    (hwarned : warned = true ↔ n.GoesBack target) :
    Goes n (.jump n.cursor target true warned) { n with cursor := target, started := true }
  | refused (n : Numbering) {target : Int} (h : target < 0 ∨
      (∃ last, n.last = some last ∧ target < last ∧ Text.digitLimit < Text.digitCount last) ∨
      n.started ∧ n.cursor + 1 < target ∧ Text.digitLimit < Text.digitCount (target - n.cursor)) :
    Goes n (.jump n.cursor target false false) n

/-- A numbering goes through the events of a record, one after the other. -/
inductive Replays : Numbering → List Event → Numbering → Prop
  | nil (n : Numbering) : Replays n [] n
  | cons {n n₁ n' : Numbering} {e : Event} {log : List Event} (h : Goes n e n₁)
    (hlog : Replays n₁ log n') : Replays n (e :: log) n'

namespace Replays

variable {n n₁ n' : Numbering} {before after log : List Event}

theorem cons_inv {e : Event} (h : Replays n (e :: log) n') :
    ∃ n₁, Goes n e n₁ ∧ Replays n₁ log n' := by
  cases h with
  | cons hgoes hlog => exact ⟨_, hgoes, hlog⟩

theorem append (h : Replays n before n₁) (h' : Replays n₁ after n') :
    Replays n (before ++ after) n' := by
  induction h with
  | nil => exact h'
  | cons hgoes _ ih => exact .cons hgoes (ih h')

theorem split (h : Replays n (before ++ after) n') :
    ∃ n₁, Replays n before n₁ ∧ Replays n₁ after n' := by
  induction before generalizing n with
  | nil => exact ⟨n, .nil n, h⟩
  | cons e before ih =>
    cases h with
    | cons hgoes hlog =>
      obtain ⟨n₁, hbefore, hafter⟩ := ih hlog
      exact ⟨n₁, .cons hgoes hbefore, hafter⟩

/-- Lines alone are numbered from the cursor on. -/
theorem lines (n : Numbering) : ∀ k : Nat,
    Replays n ((List.range k).map fun i : Nat => .numbered (n.cursor + i)) (advance^[k] n) := by
  intro k
  induction k generalizing n with
  | zero => exact .nil n
  | succ k ih =>
    rw [map_range_succ n Event.numbered, Function.iterate_succ_apply]
    exact .cons (.numbered n) (ih n.advance)

/-- **The latest number** is the last one of the record. -/
theorem last_eq (h : Replays n log n') : n'.last = (numbersOf log).getLast?.or n.last := by
  induction h with
  | nil => rfl
  | @cons n n₁ n' e log hgoes _ ih =>
    cases hgoes with
    | numbered =>
      have hnumbers : numbersOf (.numbered n.cursor :: log) = n.cursor :: numbersOf log := rfl
      rw [ih, hnumbers, List.getLast?_cons]
      cases (numbersOf log).getLast? <;> rfl
    | jump => exact ih
    | refused => exact ih

/-- The cursor and the numbers are never negative. -/
theorem nonneg (h : Replays n log n') (hcursor : 0 ≤ n.cursor) :
    0 ≤ n'.cursor ∧ ∀ k ∈ numbersOf log, 0 ≤ k := by
  induction h with
  | nil => exact ⟨hcursor, fun k hk => by cases hk⟩
  | @cons n n₁ n' e log hgoes _ ih =>
    cases hgoes with
    | numbered =>
      obtain ⟨hend, hnumbers⟩ := ih (Int.add_nonneg hcursor (by decide))
      exact ⟨hend, List.forall_mem_cons.mpr ⟨hcursor, hnumbers⟩⟩
    | jump htarget => exact ih htarget
    | refused => exact ih hcursor

/-- **Jumps alone leave the cursor where the last accepted one led**, or where it was if there is
none. -/
theorem cursor_of_jumps (h : Replays n log n') (hnone : numbersOf log = []) :
    n'.cursor = n.cursor ∨ ∃ cursor warned, .jump cursor n'.cursor true warned ∈ log ∧
      (warned = true ↔ n.GoesBack n'.cursor) := by
  induction h with
  | nil => exact Or.inl rfl
  | @cons n n₁ n' e log hgoes _ ih =>
    cases hgoes with
    | numbered => cases hnone
    | @jump target warned htarget hwarned =>
      obtain hstay | ⟨cursor, warned', hmem, hwarned'⟩ := ih hnone
      · exact Or.inr ⟨n.cursor, warned, hstay ▸ List.mem_cons_self, hstay ▸ hwarned⟩
      · exact Or.inr ⟨cursor, warned', List.mem_cons_of_mem _ hmem, hwarned'⟩
    | refused =>
      obtain hstay | ⟨cursor, warned, hmem, hwarned⟩ := ih hnone
      · exact Or.inl hstay
      · exact Or.inr ⟨cursor, warned, List.mem_cons_of_mem _ hmem, hwarned⟩

/-- **Without a warning the numbers go up**, some of them perhaps twice. -/
theorem pairwise_le (h : Replays n log n')
    (hquiet : ∀ cursor target accepted, .jump cursor target accepted true ∉ log)
    (hlast : ∀ last, n.last = some last → last ≤ n.cursor) :
    (∀ last, n.last = some last → ∀ k ∈ numbersOf log, last ≤ k) ∧
      (numbersOf log).Pairwise (· ≤ ·) := by
  induction h with
  | nil => exact ⟨fun _ _ k hk => (List.not_mem_nil hk).elim, .nil⟩
  | @cons n n₁ n' e log hgoes _ ih =>
    have hrest : ∀ cursor target accepted, .jump cursor target accepted true ∉ log :=
      fun cursor target accepted hmem => hquiet cursor target accepted (List.mem_cons_of_mem _ hmem)
    cases hgoes with
    | numbered =>
      obtain ⟨hlater, hpairwise⟩ := ih hrest fun last hsome => by
        cases hsome
        exact Int.le_of_lt (Int.lt_succ n.cursor)
      have hbound := hlater n.cursor rfl
      refine ⟨fun last hsome k hk => ?_, List.pairwise_cons.mpr ⟨hbound, hpairwise⟩⟩
      rcases List.mem_cons.mp hk with rfl | hk
      · exact hlast last hsome
      · exact Int.le_trans (hlast last hsome) (hbound k hk)
    | @jump target warned htarget hwarned =>
      have hahead : ∀ last, n.last = some last → last ≤ target := by
        intro last hsome
        by_contra hback
        have hsaid : warned = true := hwarned.mpr ⟨last, hsome, by omega⟩
        exact hquiet n.cursor target true (hsaid ▸ List.mem_cons_self)
      exact ih hrest hahead
    | refused => exact ih hrest hlast

/-- **Where no jump goes back behind the cursor, each number is greater than the one before.** -/
theorem pairwise_lt (h : Replays n log n')
    (hahead : ∀ cursor target warned, .jump cursor target true warned ∈ log → cursor ≤ target) :
    (∀ k ∈ numbersOf log, n.cursor ≤ k) ∧ (numbersOf log).Pairwise (· < ·) := by
  induction h with
  | nil => exact ⟨fun k hk => (List.not_mem_nil hk).elim, .nil⟩
  | @cons n n₁ n' e log hgoes _ ih =>
    obtain ⟨hlater, hpairwise⟩ := ih fun cursor target warned hmem =>
      hahead cursor target warned (List.mem_cons_of_mem _ hmem)
    cases hgoes with
    | numbered =>
      have hbound : ∀ k ∈ numbersOf log, n.cursor < k := hlater
      refine ⟨List.forall_mem_cons.mpr ⟨Int.le_refl _, fun k hk => Int.le_of_lt (hbound k hk)⟩, ?_⟩
      exact List.pairwise_cons.mpr ⟨hbound, hpairwise⟩
    | @jump target warned htarget hwarned =>
      have hstep := hahead n.cursor target warned List.mem_cons_self
      exact ⟨fun k hk => Int.le_trans hstep (hlater k hk), hpairwise⟩
    | refused => exact ⟨hlater, hpairwise⟩

end Replays

end Numbering

end Marginalia
