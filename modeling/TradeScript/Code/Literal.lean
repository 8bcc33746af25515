import TradeScript.Text.Search

/-!
# String literals in generated code

`Literal.escape` writes a text so that it can stand between the quotes of a string literal of C:
backslashes and double quotes get a backslash before them.
-/

namespace TradeScript

namespace Literal

/-- A text as the body of a string literal. -/
def escape (cs : List Char) : List Char :=
  Text.replaceChar '"' ['\\', '"'] (Text.replaceChar '\\' ['\\', '\\'] cs)

end Literal

end TradeScript
