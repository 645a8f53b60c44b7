/-!
# Tokens

* `Token` — a flag that one party raises for another to see;
* `Token.clear` — lowers it, and tells whether it was raised.
-/

namespace PointerChains

/-- A flag. -/
structure Token where
  /-- Whether the flag is raised. -/
  isSet : Bool := false
  deriving DecidableEq, Repr, Inhabited

namespace Token

/-- Raises the flag. -/
def set (_ : Token) : Token := ⟨true⟩

/-- Lowers the flag, and tells whether it was raised. -/
def clear (t : Token) : Bool × Token := (t.isSet, ⟨false⟩)

end Token

end PointerChains
