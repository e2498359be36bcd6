import Marginalia.Proofs.Record
import Marginalia.Report.Basic

/-!
# Ledgers of a numbering

Where no jump goes back, every number up to the cursor is accounted for: it was given to a line, or
a notice counts it, or a jump by one passed over it in silence. A `Ledger` lists what a numbering
was asked for, and with each jump the blocks that came of it. What one posting does to the cursor of
a numbering that has begun (`Numbering.Posts.cursor_eq`) adds up along the ledger
(`Numbering.Books.cursor_eq`). The first posting begins the numbering: a jump that comes first sets
the cursor and leaves nothing behind.

Results:
* `Line.toldCount_skipNotice`: the count that a notice tells of.
* `Numbering.Books.between`: what lies between two numbers in a row.
* `Numbering.Books.total`: what lies between the first number and the cursor.
-/

namespace Marginalia

namespace Line

/-- The count that a line tells of: the digits in its text, read as one number. -/
def toldCount (l : Line) : Nat := Nat.ofDigitChars 10 (l.text.filter Char.isDigit) 0

/-- **A notice tells of as many lines as it was made for.** -/
theorem toldCount_skipNotice (count : Nat) : (skipNotice count).toldCount = count := by
  have hopening : Style.noticeOpening.filter Char.isDigit = [] := by decide
  have hclosing : Style.noticeClosing.filter Char.isDigit = [] := by decide
  have hdigits : (Nat.toDigits 10 count).filter Char.isDigit = Nat.toDigits 10 count :=
    List.filter_eq_self.mpr fun c hc => Nat.isDigit_of_mem_toDigits (by decide) (by decide) hc
  have htext : (skipNotice count).text = Style.noticeOpening ++ Nat.toDigits 10 count ++
      Style.noticeClosing := by
    rw [skipNotice, Style.skipNotice, Style.notice, Text.decimal_of_nonneg (Int.natCast_nonneg _),
      Int.natAbs_natCast]
    rfl
  rw [toldCount, htext, List.filter_append, List.filter_append, hopening, hclosing, hdigits,
    List.nil_append, List.append_nil, Nat.ofDigitChars_ten_toDigits]

end Line

/-- A jump as it takes place: where the cursor was, where it is to go and where it is afterwards,
whether skipped lines are to be told of, and the blocks that came of it. -/
structure Leap where
  start : Int
  target : Int
  stop : Int
  tellSkip : Bool
  put : List Line
  deriving DecidableEq, Repr

/-- What a numbering goes through: it gives a number, or its cursor is moved. -/
inductive Posting where
  | numbered (number : Int)
  | leap (l : Leap)
  deriving DecidableEq, Repr

namespace Posting

/-- The number that is given. -/
def number? : Posting → Option Int
  | numbered number => some number
  | leap _ => none

/-- How many lines the blocks that came of it tell of. -/
def told : Posting → Nat
  | numbered _ => 0
  | leap l => l.put.foldr (fun b n => b.toldCount + n) 0

/-- A jump that moved the cursor by one. -/
def isHop : Posting → Bool
  | numbered _ => false
  | leap l => l.stop = l.start + 1

end Posting

/-- What a numbering went through, one after the other. -/
abbrev Ledger := List Posting

namespace Ledger

/-- The numbers that were given. -/
def numbers (log : Ledger) : List Int := log.filterMap Posting.number?

/-- How many lines were told of. -/
def told (log : Ledger) : Nat := log.foldr (fun e n => e.told + n) 0

/-- How many jumps moved the cursor by one. -/
def hops (log : Ledger) : Nat := log.countP Posting.isHop

/-- Where the cursor was set first: by a jump in front of everything else, or else at one. -/
def origin : Ledger → Int
  | .leap l :: _ => l.target
  | _ => 1

/-- What came after the cursor was set by a jump, or everything if it was not. -/
def later : Ledger → Ledger
  | .leap _ :: rest => rest
  | log => log

section Append

variable (log rest : Ledger)

theorem numbers_append : numbers (log ++ rest) = numbers log ++ numbers rest :=
  List.filterMap_append

theorem told_append : told (log ++ rest) = told log + told rest := by
  have hcons (e : Posting) (log : Ledger) : told (e :: log) = e.told + told log := rfl
  induction log with
  | nil => exact (Nat.zero_add _).symm
  | cons e log ih => rw [List.cons_append, hcons, hcons, ih, Nat.add_assoc]

theorem hops_append : hops (log ++ rest) = hops log + hops rest := List.countP_append

end Append

/-! The account of one jump. -/

theorem told_leap (l : Leap) :
    told [.leap l] = l.put.foldr (fun b n => b.toldCount + n) 0 := Nat.add_zero _

theorem hops_leap (l : Leap) : hops [.leap l] = if l.stop = l.start + 1 then 1 else 0 := by
  simp [hops, Posting.isHop, List.countP_cons]

end Ledger

namespace Numbering

open Ledger

/-- What one posting does to a numbering, jumps back aside. A jump may be refused if the numbering
has begun. -/
inductive Posts : Numbering → Posting → Numbering → Prop
  | numbered (n : Numbering) : Posts n (.numbered n.cursor) n.advance
  | leap (n : Numbering) {target : Int} (h : n.cursor ≤ target) :
    Posts n
      (.leap {
        start := n.cursor
        target := target
        stop := target
        tellSkip := true
        put := ((n.skipped? target).map Line.skipNotice).toList })
      { n with cursor := target, started := true }
  | refused (n : Numbering) {target : Int} (hn : n.started = true) :
    Posts n
      (.leap {
        start := n.cursor
        target := target
        stop := n.cursor
        tellSkip := true
        put := [] })
      n

/-- What the postings of a ledger do to a numbering, one after the other. -/
def Books : Numbering → Ledger → Numbering → Prop
  | n, [], n' => n' = n
  | n, e :: log, n' => ∃ n₁, Posts n e n₁ ∧ Books n₁ log n'

variable {n n₁ n' : Numbering} {e : Posting} {log before after : Ledger}

/-! ## One posting -/

theorem Posts.started (h : Posts n e n₁) : n₁.started = true := by
  cases h with
  | numbered | leap => rfl
  | refused hn => exact hn

/-- **All that a jump can come to.** It leaves a notice behind that counts two lines or more, by
which the cursor moves on, and the numbering has begun before; or else it leaves nothing behind, and
the cursor moves on by one at most if the numbering has begun. -/
theorem Posts.leap_cases {l : Leap} (h : Posts n (.leap l) n₁) :
    l.start = n.cursor ∧ l.stop = n₁.cursor ∧
      ((n.started = true ∧ ∃ count : Nat, 2 ≤ count ∧ l.put = [Line.skipNotice count] ∧
          n₁.cursor = n.cursor + count) ∨
        l.put = [] ∧ (n.started = true → n₁.cursor = n.cursor ∨ n₁.cursor = n.cursor + 1)) := by
  cases h with
  | refused hn => exact ⟨rfl, rfl, Or.inr ⟨rfl, fun _ => Or.inl rfl⟩⟩
  | @leap target hahead =>
    refine ⟨rfl, rfl, ?_⟩
    by_cases hskip : n.started ∧ n.cursor + 1 < target
    · left
      obtain ⟨count, hcount⟩ : ∃ count : Nat, target - n.cursor = count :=
        ⟨(target - n.cursor).toNat, by omega⟩
      refine ⟨hskip.1, count, by omega, ?_, ?_⟩
      · rw [skipped?, if_pos hskip, hcount]
        rfl
      · show target = n.cursor + count
        omega
    · right
      refine ⟨by rw [skipped?, if_neg hskip]; rfl, fun hn => ?_⟩
      have hnear : ¬ n.cursor + 1 < target := fun hlt => hskip ⟨hn, hlt⟩
      show target = n.cursor ∨ target = n.cursor + 1
      omega

/-- **Once the numbering has begun, a posting moves the cursor on** by the number that it gives, or
by as many lines as it tells of, or by one in silence. -/
theorem Posts.cursor_eq (h : Posts n e n₁) (hn : n.started = true) :
    n₁.cursor = n.cursor + (numbers [e]).length + told [e] + hops [e] := by
  cases e with
  | numbered p =>
    cases h
    show n.cursor + 1 = n.cursor + (1 : Nat) + (0 : Nat) + (0 : Nat)
    omega
  | leap l =>
    have hnumbers : (numbers [.leap l]).length = 0 := rfl
    obtain ⟨hstart, hstop, hput⟩ := h.leap_cases
    rw [hnumbers, told_leap, hops_leap, hstart, hstop]
    obtain ⟨-, count, hcount, hput, hcursor⟩ | ⟨hput, hcursor⟩ := hput
    · rw [hput, List.foldr_cons, List.foldr_nil, Line.toldCount_skipNotice, if_neg (by omega)]
      omega
    · rw [hput, List.foldr_nil]
      rcases hcursor hn with hstay | hhop
      · rw [if_neg (by omega)]
        omega
      · rw [if_pos hhop]
        omega

/-! ## Many postings -/

theorem books_append_iff :
    Books n (before ++ after) n' ↔ ∃ n₁, Books n before n₁ ∧ Books n₁ after n' := by
  induction before generalizing n with
  | nil => simp [Books]
  | cons e before ih =>
    simp only [List.cons_append, Books, ih]
    constructor
    · rintro ⟨n₁, hpost, n₂, hbefore, hafter⟩
      exact ⟨n₂, ⟨n₁, hpost, hbefore⟩, hafter⟩
    · rintro ⟨n₂, ⟨n₁, hpost, hbefore⟩, hafter⟩
      exact ⟨n₁, hpost, n₂, hbefore, hafter⟩

/-- Lines alone are numbered from the cursor on. -/
theorem books_lines : ∀ (k : Nat) (n : Numbering),
    Books n ((List.range k).map fun i : Nat => .numbered (n.cursor + i)) (advance^[k] n)
  | 0, _ => rfl
  | k + 1, n => by
    rw [map_range_succ n Posting.numbered, Function.iterate_succ_apply]
    exact ⟨n.advance, .numbered n, books_lines k n.advance⟩

/-- **The cursor is moved on by all that is accounted for.** -/
theorem Books.cursor_eq (h : Books n log n') (hn : n.started = true) :
    n'.cursor = n.cursor + (numbers log).length + told log + hops log := by
  induction log generalizing n with
  | nil =>
    rw [show n' = n from h]
    show n.cursor = n.cursor + (0 : Nat) + (0 : Nat) + (0 : Nat)
    omega
  | cons e log ih =>
    obtain ⟨n₁, hpost, hlog⟩ := h
    have hfirst := hpost.cursor_eq hn
    have hrest := ih hlog hpost.started
    rw [← List.singleton_append, numbers_append, List.length_append, told_append, hops_append]
    omega

/-- Every block that a jump leaves behind is a notice. -/
theorem Books.notices (h : Books n log n') {l : Leap} (hl : .leap l ∈ log) :
    ∀ b ∈ l.put, ∃ count : Nat, 2 ≤ count ∧ b = Line.skipNotice count ∧ b.toldCount = count := by
  obtain ⟨before, after, rfl⟩ := List.append_of_mem hl
  obtain ⟨n₁, -, n₂, hpost, -⟩ := books_append_iff.mp h
  intro b hb
  obtain ⟨-, -, ⟨-, count, hcount, hput, -⟩ | ⟨hput, -⟩⟩ := hpost.leap_cases
  · rw [hput, List.mem_singleton] at hb
    exact ⟨count, hcount, hb, hb ▸ Line.toldCount_skipNotice count⟩
  · rw [hput] at hb
    cases hb

/-- **Between two numbers in a row** lie as many as the notices between them count, and one more for
each jump by one. -/
theorem Books.between {p q : Int} {between : Ledger}
    (h : Books n (before ++ .numbered p :: (between ++ .numbered q :: after)) n')
    (hnone : numbers between = []) : q - p - 1 = told between + hops between := by
  obtain ⟨n₁, -, n₂, hp, hrest⟩ := books_append_iff.mp h
  obtain ⟨n₃, hbetween, n₄, hq, -⟩ := books_append_iff.mp hrest
  have hcursor := hbetween.cursor_eq hp.started
  cases hp
  cases hq
  rw [hnone] at hcursor
  have hnext : n₁.advance.cursor = n₁.cursor + 1 := rfl
  rw [hnext, List.length_nil] at hcursor
  omega

/-- Where the numbering has not begun, a jump leaves nothing behind. -/
theorem Books.put_first {l : Leap} (h : Books {} (.leap l :: log) n') : l.put = [] := by
  obtain ⟨n₁, hpost, -⟩ := h
  obtain ⟨-, -, ⟨hstarted, -⟩ | ⟨hput, -⟩⟩ := hpost.leap_cases
  · cases hstarted
  · exact hput

/-- **All that a new numbering went through** lies between its first number and the cursor. -/
theorem Books.total (h : Books {} log n') :
    n'.cursor = origin log + (numbers log).length + told log + hops (later log) := by
  cases log with
  | nil =>
    rw [show n' = {} from h]
    rfl
  | cons e log =>
    obtain ⟨n₁, hpost, hlog⟩ := h
    have hrest := hlog.cursor_eq hpost.started
    rw [← List.singleton_append, numbers_append, List.length_append, told_append]
    cases hpost with
    | refused hn => cases hn
    | numbered =>
      have hcursor : ({} : Numbering).advance.cursor = 2 := rfl
      have hhops : hops (.numbered 1 :: log) = hops log := List.countP_cons_of_neg (by decide)
      show n'.cursor = 1 + ((1 + (numbers log).length : Nat) : Int) +
        ((0 + told log : Nat) : Int) + hops (.numbered 1 :: log)
      rw [hhops]
      omega
    | @leap target htarget =>
      show n'.cursor = target + ((0 + (numbers log).length : Nat) : Int) +
        ((0 + told log : Nat) : Int) + hops log
      simp only [Nat.zero_add]
      exact hrest

end Numbering

end Marginalia
