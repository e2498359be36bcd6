/-!
# Spans

A span is a run of positions, its `stop` excluded. Two underlines may share at most one boundary
cell: `Span.Collides` is the rule that refuses all others.
-/

namespace Marginalia

/-- The positions from `start` up to but not including `stop`. -/
structure Span where
  start : Int
  stop : Int
  deriving DecidableEq, Repr

namespace Span

/-- How many positions the span covers, negative when it is reversed. -/
def width (s : Span) : Int := s.stop - s.start

/-- The span moved to the right. -/
def shift (s : Span) (offset : Int) : Span := ⟨s.start + offset, s.stop + offset⟩

/-- `a` comes before `b`: it starts first, or together with `b` and is the longer one. -/
def Precedes (a b : Span) : Prop := a.start < b.start ∨ a.start = b.start ∧ b.stop < a.stop

instance (a b : Span) : Decidable (Precedes a b) := inferInstanceAs (Decidable (_ ∨ _))

/-- `b` begins before the last cell of `a`, or in its first one. -/
def RunsInto (a b : Span) : Prop := b.start < max (a.stop - 1) (a.start + 1)

instance (a b : Span) : Decidable (RunsInto a b) := inferInstanceAs (Decidable (_ < _))

/-- Two underlines that may not stand on one line: whichever comes first runs into the other. -/
def Collides (a b : Span) : Prop := if Precedes b a then RunsInto b a else RunsInto a b

instance (a b : Span) : Decidable (Collides a b) := inferInstanceAs (Decidable (ite _ _ _))

end Span

end Marginalia
