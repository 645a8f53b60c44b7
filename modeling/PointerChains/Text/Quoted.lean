import PointerChains.Text.Hex
import PointerChains.Text.Invisible

/-!
# Quoted text

A text is quoted so that it can be read on one line: quotes and backslashes are marked, and
characters that do not show are named by their code points.

* `escape` — the form of one character;
* `quote` — a text between quotes.
-/

namespace PointerChains.Text

/-- A character as it stands between quotes. -/
def escape (c : Char) : List Char :=
  if c = '"' ∨ c = '\\' then ['\\', c]
  else if c = '\n' then ['\\', 'n']
  else if c = '\r' then ['\\', 'r']
  else if c = '\t' then ['\\', 't']
  else if c = '\x00' then ['\\', '0']
  else if isInvisible c then
    ['\\', 'u', '\x7b'] ++ Hex.digits .lower c.toNat ++ ['\x7d']
  else [c]

/-- A text between quotes. -/
def quote (s : String) : String :=
  String.ofList ('"' :: s.toList.flatMap escape ++ ['"'])

end PointerChains.Text
