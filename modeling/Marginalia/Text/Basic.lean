/-!
# Text

A `Text` is the list of its code points, so that a position in a text, the length of a text and the
column of a mark all count the same thing. Texts are laid out in rows: `blanks` pads a row,
`repeated` fills one, and `stack` puts rows one below the other.

Whatever there is of a text is counted in bytes by a number of at most `indexLimit`. Each character
takes up as many of them as the widest one of the text needs, and a head comes on top, so that no
text has more than `lengthLimit` characters.
-/

namespace Marginalia

/-- A text, as the list of its code points. -/
abbrev Text := List Char

namespace Text

/-- As many blanks as `n` says, and none when `n` is negative. -/
def blanks (n : Int) : Text := List.replicate n.toNat ' '

/-- A text so many times in a row, and not at all when `n` is negative. -/
def repeated (t : Text) (n : Int) : Text :=
  if t.isEmpty then [] else (List.replicate n.toNat t).flatten

/-- Rows one below the other: a line feed between each two of them, none after the last. -/
def stack (rows : List Text) : Text := List.intercalate ['\n'] rows

/-- The largest number that counts characters, bytes or blocks. -/
def indexLimit : Nat := 0x7fffffffffffffff

/-- The bytes that each character of a text takes up. -/
def charSize (t : Text) : Nat :=
  if t.all (·.toNat < 0x100) then 1 else if t.all (·.toNat < 0x10000) then 2 else 4

/-- The bytes that a text takes up besides its characters. -/
def headSize (t : Text) : Nat := if t.all (·.toNat < 0x80) then 48 else 72

/-- The most characters of a text that is made up of those of `t`. One more character, which ends
the text, takes up room as well. -/
def lengthLimitOf (t : Text) : Nat := (indexLimit - t.headSize) / t.charSize - 1

/-- The most characters of any text. -/
def lengthLimit : Nat := indexLimit - 49

theorem repeated_eq_flatten (t : Text) (n : Int) :
    repeated t n = (List.replicate n.toNat t).flatten := by
  cases t <;> simp [repeated]

/-- ASCII takes up the least room. -/
theorem lengthLimitOf_of_ascii {t : Text} (h : ∀ c ∈ t, c.toNat < 0x80) :
    lengthLimitOf t = lengthLimit := by
  have hhead : t.all (·.toNat < 0x80) := by simpa using h
  have hsize : t.all (·.toNat < 0x100) := by
    simpa using fun c hc => Nat.lt_trans (h c hc) (by decide)
  rw [lengthLimitOf, headSize, charSize, if_pos hhead, if_pos hsize]
  rfl

@[simp] theorem length_blanks (n : Int) : (blanks n).length = n.toNat := List.length_replicate

end Text

end Marginalia
