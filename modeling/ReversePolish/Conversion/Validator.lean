/-!
# Validators

A validator says which operand names an expression may use.  A conversion asks it about every
operand at the moment it is read, so a name that occurs twice is asked about twice, and nothing
behind a rejected name is asked about at all.
-/

namespace ReversePolish

/-- A predicate that says which operand names are accepted. -/
abbrev Validator := String → Bool

/-- The validator that accepts every name. -/
def acceptAll : Validator := fun _ => true

@[simp] theorem acceptAll_apply (name : String) : acceptAll name = true := rfl

end ReversePolish
