import ReversePolish.Operator

/-!
# The shape of the operator stack

The stack of a conversion is made of segments.  The lowest one stands on the end mark, every other
one on an opening parenthesis.  A segment holds what waits at one nesting depth: at most one binary
operator, since a second one would have made the first be emitted, and negations above it.
-/

namespace ReversePolish

/-- Negations, and below them perhaps one binary operator; the top comes first. -/
def IsSegment (ops : List Operator) : Prop :=
  ∃ nots binary, (binary = [] ∨ binary = [Operator.and] ∨ binary = [Operator.or]) ∧
    ops = List.replicate nots Operator.not ++ binary

/-- A stack of segments; the top comes first. -/
inductive Layered : List Operator → Prop where
  | bottom {ops : List Operator} (segment : IsSegment ops) : Layered (ops ++ [.endOfInput])
  | group {ops stack : List Operator} (segment : IsSegment ops) (below : Layered stack) :
      Layered (ops ++ .openParen :: stack)

theorem IsSegment.nil : IsSegment [] :=
  ⟨0, [], .inl rfl, rfl⟩

theorem IsSegment.not {ops : List Operator} (h : IsSegment ops) : IsSegment (.not :: ops) := by
  obtain ⟨nots, binary, hb, rfl⟩ := h
  exact ⟨nots + 1, binary, hb, rfl⟩

theorem Layered.openParen {stack : List Operator} (h : Layered stack) :
    Layered (.openParen :: stack) :=
  .group .nil h

end ReversePolish
