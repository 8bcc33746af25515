import TradeScript.Path

/-!
# Normal paths

`Path.normalize` drops the dots of a path and lets each `..` cancel the name before it, by the
components alone. `Path.resolve` finds the file that a script means by a relative name.
-/

namespace TradeScript

namespace Path

namespace Component

/-- The reduced components read so far, last first, after one more component. -/
def reduceStep (reduced : List Component) : Component → List Component
  | root => [root]
  | here => reduced
  | up => match reduced with
    | name _ :: before => before
    | root :: _ => reduced
    | _ => up :: reduced
  | name text => name text :: reduced

/-- Components without dots, in which no `..` follows a name or the root. -/
def reduce (components : List Component) : List Component :=
  (components.foldl reduceStep []).reverse

/-- The text of a sequence of components. -/
def render : List Component → List Char
  | root :: others => '/' :: Text.join ['/'] (others.map chars)
  | others => Text.join ['/'] (others.map chars)

end Component

/-- The path without dots and without a `..` after a name or the root. -/
def normalize (p : Path) : Path :=
  ofChars (Component.render (Component.reduce p.components))

/-- The file that `target` names in a script at `script`. -/
def resolve (script : Path) (target : String) : Path :=
  (((script.parent?).getD ⟨""⟩).join ⟨target⟩).normalize

end Path

end TradeScript
