import Marginalia.Fault
import Mathlib.Data.List.Basic
import Mathlib.Tactic.Common

/-!
# Numbers that can be put into words

A number is written if it has at most `digitLimit` digits. Where several numbers are to be written,
as in the words of a fault, the first that is too long is met as `numberTooLong`, whichever it is.
Numbers that count characters are never too long.

Results:
* `Text.decimalExcess?_eq_none_iff`, `Text.decimalsExcess?_eq_none_iff`: what is written.
* `Text.digitCount_le_of_lengthLimit`: the numbers that count characters.
* `Text.exists_longest`: the largest number that is written.
* `Fault.uttered_of_short`, `Fault.uttered_of_long`: what a fault is met as.
-/

namespace Marginalia

namespace Text

variable {m n : Int} {ns : List Int}

/-- **The numbers that are written** are those of at most `digitLimit` digits. -/
theorem decimalExcess?_eq_none_iff : decimalExcess? n = none ↔ digitCount n ≤ digitLimit := by
  rw [decimalExcess?]
  split
  · rename_i h
    simp only [reduceCtorEq, false_iff]
    omega
  · rename_i h
    simp only [true_iff]
    omega

theorem decimalExcess?_of_long (h : digitLimit < digitCount n) :
    decimalExcess? n = some .numberTooLong := if_pos h

theorem decimalExcess?_eq_some {e : Fault} (h : decimalExcess? n = some e) :
    e = .numberTooLong := by
  unfold decimalExcess? at h
  split at h
  · exact (Option.some.inj h).symm
  · cases h

/-- **Several numbers are written** if each of them is. -/
theorem decimalsExcess?_eq_none_iff :
    decimalsExcess? ns = none ↔ ∀ n ∈ ns, digitCount n ≤ digitLimit := by
  simp only [decimalsExcess?, List.findSome?_eq_none_iff, decimalExcess?_eq_none_iff]

theorem decimalsExcess?_eq_some {e : Fault} (h : decimalsExcess? ns = some e) :
    e = .numberTooLong := by
  obtain ⟨n, -, hn⟩ := List.exists_of_findSome?_eq_some h
  exact decimalExcess?_eq_some hn

theorem decimalsExcess?_of_long (hn : n ∈ ns) (h : digitLimit < digitCount n) :
    decimalsExcess? ns = some .numberTooLong := by
  cases hexcess : decimalsExcess? ns with
  | none =>
    have := decimalsExcess?_eq_none_iff.mp hexcess n hn
    omega
  | some e => rw [decimalsExcess?_eq_some hexcess]

/-! ## Counting digits -/

theorem digitCount_le_iff {k : Nat} (hk : 0 < k) :
    digitCount n ≤ k ↔ n.natAbs < Nat.pow 10 k := Nat.length_toDigits_le_iff (by decide) hk

/-- Larger numbers have no fewer digits. -/
theorem digitCount_mono (h : m.natAbs ≤ n.natAbs) : digitCount m ≤ digitCount n := by
  have hpos : 0 < digitCount n := Nat.length_toDigits_pos
  rw [digitCount_le_iff hpos]
  exact Nat.lt_of_le_of_lt h ((digitCount_le_iff hpos).mp (Nat.le_refl _))

/-- **A number that counts characters is never too long**, nor is one of about that size. -/
theorem digitCount_le_of_lengthLimit (h : n.natAbs ≤ 2 * lengthLimit + 4) :
    digitCount n ≤ digitLimit := by
  have hshort : digitCount n ≤ 20 := by
    rw [digitCount_le_iff (by decide)]
    exact Nat.lt_of_le_of_lt h (by decide)
  exact Nat.le_trans hshort (by decide)

/-- **There is a largest number that is written.** -/
theorem exists_longest : ∃ n : Int, 0 < n ∧ digitCount n ≤ digitLimit ∧
    ∀ m, n < m → digitLimit < digitCount m := by
  -- The power is not to be worked out.
  obtain ⟨limit, hlimit⟩ : ∃ limit, limit = Nat.pow 10 digitLimit := ⟨_, rfl⟩
  have hpow : ∀ k, k ≠ 0 → 1 < Nat.pow 10 k := fun k hk => Nat.one_lt_pow hk (by decide)
  have hlarge : 1 < limit := hlimit ▸ hpow digitLimit (by decide)
  refine ⟨limit - 1, by omega, ?_, fun m hm => ?_⟩
  · rw [digitCount_le_iff (by decide), ← hlimit]
    omega
  · rw [← Nat.not_le, digitCount_le_iff (by decide), ← hlimit]
    omega

end Text

namespace Fault

variable {fault : Fault}

/-- **A fault is met as what it is** if the numbers in its words are short enough. -/
theorem uttered_of_short (h : ∀ n ∈ fault.numbers, Text.digitCount n ≤ Text.digitLimit) :
    fault.uttered = fault := by
  rw [uttered, Text.decimalsExcess?_eq_none_iff.mpr h, Option.getD_none]

/-- **A fault is met as another one** if a number in its words is too long. -/
theorem uttered_of_long {n : Int} (hn : n ∈ fault.numbers)
    (h : Text.digitLimit < Text.digitCount n) : fault.uttered = .numberTooLong := by
  rw [uttered, Text.decimalsExcess?_of_long hn h, Option.getD_some]

/-- A fault with one number in its words. -/
theorem uttered_of_numbers_eq {n : Int} (h : fault.numbers = [n]) :
    fault.uttered = if Text.digitLimit < Text.digitCount n then .numberTooLong else fault := by
  split
  · exact uttered_of_long (h ▸ List.mem_singleton.mpr rfl) ‹_›
  · refine uttered_of_short ?_
    rw [h, List.forall_mem_singleton]
    omega

end Fault

end Marginalia
