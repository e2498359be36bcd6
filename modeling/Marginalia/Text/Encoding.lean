import Marginalia.Fault

/-!
# Character encodings

How the bytes of a file become text. Any `Codec` will do that, and which there are is for the system
to say; the ones written out here are UTF-8, with or without a mark at the start, Latin-1 and ASCII.
Bytes that are no text are reported by where they stand. Thereafter `Text.unifyBreaks` makes every
line end with a single line feed.

Out of scope: all other codecs, of which it does not matter here what they do, and surrogates that
stand alone, which are no characters.
-/

namespace Marginalia

/-- A text that there is room for. -/
abbrev Stored := { t : Text // t.length ≤ Text.lengthLimit }

/-- What is made of the bytes of a file: a text, nothing because they are none for some reason, or
nothing at all. -/
inductive Decoded where
  | text (t : Stored)
  | garbled (reason : Text)
  | fault (fault : Fault)
  deriving DecidableEq, Repr

/-- A way to make text of the bytes of a file. -/
abbrev Codec := List UInt8 → Decoded

/-- A character encoding. -/
inductive Encoding where
  | utf8
  | markedUtf8
  | latin1
  | ascii
  deriving DecidableEq, Repr

/-- What is wrong with some bytes. -/
inductive Flaw where
  | badStart
  | badContinuation
  | cutShort
  | notAscii
  deriving DecidableEq, Repr

/-- Bytes that are no text: those from `start` up to but not including `stop`, the first of which is
`first`. -/
structure Garbled where
  flaw : Flaw
  first : UInt8
  start : Nat
  stop : Nat
  deriving DecidableEq, Repr

namespace Flaw

/-- The codec that meets a flaw, and the flaw in words. -/
def words : Flaw → String × String
  | badStart => ("utf-8", "invalid start byte")
  | badContinuation => ("utf-8", "invalid continuation byte")
  | cutShort => ("utf-8", "unexpected end of data")
  | notAscii => ("ascii", "ordinal not in range(128)")

end Flaw

namespace Garbled

/-- Garbled bytes in words. -/
def message (g : Garbled) : Text :=
  let (codec, reason) := g.flaw.words
  let what : Text :=
    if g.stop = g.start + 1 then
      "byte 0x".toList ++ Text.hex 2 g.first.toNat ++ " in position ".toList ++ Text.digits g.start
    else
      "bytes in position ".toList ++ Text.digits g.start ++ '-' :: Text.digits (g.stop - 1)
  '\'' :: codec.toList ++ "' codec can't decode ".toList ++ what ++ ": ".toList ++ reason.toList

end Garbled

namespace Encoding

/-- A UTF-8 sequence that has begun: its first byte and where that stands, the bits read so far, how
many bytes are missing, and the range that the next one has to be in. -/
structure Sequence where
  first : UInt8
  start : Nat
  bits : Nat
  missing : Nat
  low : Nat := 0x80
  high : Nat := 0xbf
  deriving DecidableEq, Repr

/-- The sequence that a byte begins, if it can begin one. The ranges leave out overlong forms,
surrogates, and what lies beyond the last code point. -/
def Sequence.begin? (b : UInt8) (start : Nat) : Option Sequence :=
  let n := b.toNat
  if n < 0xc2 then none
  else if n < 0xe0 then some ⟨b, start, n % 0x20, 1, 0x80, 0xbf⟩
  else if n < 0xf0 then
    some ⟨b, start, n % 0x10, 2, if n = 0xe0 then 0xa0 else 0x80, if n = 0xed then 0x9f else 0xbf⟩
  else if n < 0xf5 then
    some ⟨b, start, n % 0x08, 3, if n = 0xf0 then 0x90 else 0x80, if n = 0xf4 then 0x8f else 0xbf⟩
  else none

/-- Reads UTF-8 from position `i` on, with the sequence that is under way. -/
def readUtf8 : List UInt8 → (i : Nat) → Option Sequence → Except Garbled Text
  | [], _, none => .ok []
  | [], i, some s => .error ⟨.cutShort, s.first, s.start, i⟩
  | b :: rest, i, none =>
    if b.toNat < 0x80 then (Char.ofNat b.toNat :: ·) <$> readUtf8 rest (i + 1) none
    else
      match Sequence.begin? b i with
      | none => .error ⟨.badStart, b, i, i + 1⟩
      | some s => readUtf8 rest (i + 1) (some s)
  | b :: rest, i, some s =>
    if s.low ≤ b.toNat ∧ b.toNat ≤ s.high then
      let bits := s.bits * 0x40 + b.toNat % 0x40
      if s.missing ≤ 1 then (Char.ofNat bits :: ·) <$> readUtf8 rest (i + 1) none
      else readUtf8 rest (i + 1) (some ⟨s.first, s.start, bits, s.missing - 1, 0x80, 0xbf⟩)
    else .error ⟨.badContinuation, s.first, s.start, i⟩

/-- Reads ASCII from position `i` on. -/
def readAscii : List UInt8 → (i : Nat) → Except Garbled Text
  | [], _ => .ok []
  | b :: rest, i =>
    if b.toNat < 0x80 then (Char.ofNat b.toNat :: ·) <$> readAscii rest (i + 1)
    else .error ⟨.notAscii, b, i, i + 1⟩

/-- The bytes that mark a file as UTF-8. -/
def byteOrderMark : List UInt8 := [0xef, 0xbb, 0xbf]

/-- The bytes after the mark, if they begin with it; a mark that is cut short is nothing at all. -/
def withoutMark (bytes : List UInt8) : List UInt8 :=
  if byteOrderMark.isPrefixOf bytes then bytes.drop byteOrderMark.length
  else if bytes.isPrefixOf byteOrderMark then []
  else bytes

/-- The text of some bytes. -/
def decode (e : Encoding) (bytes : List UInt8) : Except Garbled Text :=
  match e with
  | utf8 => readUtf8 bytes 0 none
  | markedUtf8 => readUtf8 (withoutMark bytes) 0 none
  | latin1 => .ok (bytes.map fun b => Char.ofNat b.toNat)
  | ascii => readAscii bytes 0

/-- The codec of an encoding. -/
def codec (e : Encoding) : Codec := fun bytes =>
  match e.decode bytes with
  | .error garbled => .garbled garbled.message
  | .ok t => if fits : t.length ≤ Text.lengthLimit then .text ⟨t, fits⟩ else .fault .outOfMemory

/-- The proper names of the encodings, in lower case and with their words joined by underscores. -/
def properNames : List (String × Encoding) :=
  [("utf_8", utf8), ("utf_8_sig", markedUtf8), ("latin_1", latin1), ("ascii", ascii)]

/-- Other names that the encodings go by. -/
def aliases : List (String × Encoding) := [
  ("utf8", utf8), ("utf", utf8), ("u8", utf8), ("cp65001", utf8), ("utf8_ucs2", utf8),
  ("utf8_ucs4", utf8),
  ("latin1", latin1), ("latin", latin1), ("l1", latin1), ("iso_8859_1", latin1),
  ("iso8859_1", latin1), ("iso8859", latin1), ("8859", latin1), ("iso_8859_1_1987", latin1),
  ("iso_ir_100", latin1), ("cp819", latin1), ("ibm819", latin1), ("csisolatin1", latin1),
  ("us_ascii", ascii), ("us", ascii), ("646", ascii), ("cp367", ascii), ("ibm367", ascii),
  ("csascii", ascii), ("iso646_us", ascii), ("iso_ir_6", ascii), ("iso_646.irv_1991", ascii),
  ("ansi_x3.4_1968", ascii), ("ansi_x3_4_1968", ascii), ("ansi_x3.4_1986", ascii)]

/-- A character that counts in the name of an encoding. -/
def isNameChar (c : Char) : Bool := c.isAlphanum || c = '.'

/-- The words of a name, in lower case; whatever stands between them does not matter. -/
def nameWords : Text → List Text
  | [] => [[]]
  | c :: rest =>
    if isNameChar c then (nameWords rest).modifyHead (c.toLower :: ·) else [] :: nameWords rest

/-- The name of whatever encoding is the custom of the place. -/
def customary : Text := "locale".toList

/-- The encoding of a name, in any case and with any marks between its words. In aliases a point
may stand for an underscore. The custom is UTF-8. -/
def named? (name : Text) : Option Encoding :=
  let words := (nameWords name).filter (!·.isEmpty)
  let key := List.intercalate ['_'] words
  let undotted := key.map fun c => if c = '.' then '_' else c
  if name = customary then some utf8
  else
    (properNames.lookup (String.ofList key)).or
      ((aliases.lookup (String.ofList key)).or (aliases.lookup (String.ofList undotted)))

/-- The codec of a name. -/
def codec? (name : Text) : Option Codec := (named? name).map codec

end Encoding

namespace Text

/-- Makes every carriage return, and every one with the line feed after it, a single line feed. -/
def unifyBreaks : Text → Text
  | '\r' :: '\n' :: rest => '\n' :: unifyBreaks rest
  | '\r' :: rest => '\n' :: unifyBreaks rest
  | c :: rest => c :: unifyBreaks rest
  | [] => []

theorem length_unifyBreaks_le (t : Text) : t.unifyBreaks.length ≤ t.length := by
  fun_induction unifyBreaks t with
  | case1 rest ih => simp only [List.length_cons]; omega
  | case2 rest _ ih => simp only [List.length_cons]; omega
  | case3 c rest _ _ ih => simp only [List.length_cons]; omega
  | case4 => exact Nat.le_refl 0

end Text

end Marginalia
