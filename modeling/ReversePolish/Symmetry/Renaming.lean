import ReversePolish.Postfix.Basic

/-!
# Renaming operands

What an operand is called matters to the validator alone.  `renameNames f` replaces every name of
a text by its image under `f` and leaves all other characters where they are; the names of a text
are its maximal runs of name characters.  The images have to be names again, but different names
may have the same image.
-/

namespace ReversePolish

/-- The characters with every maximal run of name characters replaced by its image. -/
def renameRuns (f : String → String) : List Char → List Char
  | [] => []
  | c :: cs =>
    if isNameChar c then
      (f (String.ofList (c :: cs.takeWhile isNameChar))).toList ++
        renameRuns f (cs.dropWhile isNameChar)
    else c :: renameRuns f cs
termination_by l => l.length
decreasing_by
  · exact Nat.lt_succ_of_le (List.dropWhile_sublist isNameChar).length_le
  · exact Nat.lt_succ_self _

@[simp] theorem renameRuns_nil (f : String → String) : renameRuns f [] = [] := by
  rw [renameRuns]

/-- The text with every operand name replaced by its image. -/
def renameNames (f : String → String) (text : String) : String :=
  String.ofList (renameRuns f text.toList)

/-- The token with its name, if it has one, replaced by the image. -/
def Token.rename (f : String → String) : Token → Token
  | .operator op => .operator op
  | .operand name => .operand (f name)

namespace Postfix

/-- The token with its name, if it has one, replaced by the image. -/
def Token.rename (f : String → String) : Token → Token
  | .operand name => .operand (f name)
  | .and => .and
  | .or => .or
  | .not => .not

def rename (f : String → String) (p : Postfix) : Postfix where
  tokens := p.tokens.map (Token.rename f)

@[simp] theorem Token.arity_rename (f : String → String) (t : Token) :
    (t.rename f).arity = t.arity := by
  cases t <;> rfl

end Postfix

end ReversePolish
