import TradeScript.Action
import TradeScript.Text.Lines

/-!
# Generated code

Code is first a sequence of pieces (`Piece`): words, braces that open and close an indented block,
and words that end a line. `Tree.pieces` reads them off a tree; `Piece.render` sets them out in
lines.
-/

namespace TradeScript

/-- A piece of generated code. -/
inductive Piece
  /-- A word within a line. -/
  | word (text : List Char)
  /-- A word that ends its line and opens a block. -/
  | opening (text : List Char)
  /-- A word on a line of its own that closes a block. -/
  | closing (text : List Char)
  /-- A word that ends its line. -/
  | ending (text : List Char)

namespace Piece

/-- What is written before a word: the indentation at the start of a line and a blank within it,
except before a comma or a semicolon. -/
def lead (depth : Nat) (fresh : Bool) (text : List Char) : List Char :=
  if fresh then List.replicate depth '\t'
  else if text = [','] ∨ text = [';'] then []
  else [' ']

/-- The text of some pieces, given the depth of open blocks and whether a line has just begun. -/
def render (depth : Nat) (fresh : Bool) : List Piece → List Char
  | [] => []
  | word text :: others => lead depth fresh text ++ text ++ render depth false others
  | opening text :: others =>
    lead depth fresh text ++ text ++ '\n' :: render (depth + 1) true others
  | closing text :: others =>
    (if fresh then [] else ['\n']) ++ lead (depth - 1) true text ++ text ++
      '\n' :: render (depth - 1) true others
  | ending text :: others => lead depth fresh text ++ text ++ '\n' :: render depth true others

/-- The piece for a semicolon, which ends the line except in the header of a loop. -/
def semicolon (inHeader : Bool) (text : List Char) : Piece :=
  if inHeader then word text else ending text

/-- The piece for a token. -/
def ofToken (inHeader : Bool) (t : Token) : Piece :=
  match t.kind with
  | .mark .leftBrace => opening t.value.toList
  | .mark .rightBrace => closing t.value.toList
  | .mark .semicolon => semicolon inHeader t.value.toList
  | _ => word t.value.toList

/-- The pieces that return the code of an action. -/
def ofAction (inHeader : Bool) (a : Action) : List Piece :=
  [word "return".toList, word (toString a.code).toList, semicolon inHeader [';']]

end Piece

namespace Tree

mutual

/-- The pieces of a tree; `inHeader` says whether it stands in the header of a `for` loop. Indicator
declarations have none, and an action statement returns the code of its action. -/
def pieces (inHeader : Bool) : Tree → List Piece
  | leaf token => [Piece.ofToken inHeader token]
  | node .indicatorDeclaration _ _ _ => []
  | node .actionStatement choice start children =>
    match (node .actionStatement choice start children).action? with
    | some a => Piece.ofAction inHeader a
    | none => piecesAll inHeader children
  | node .forStatement _ _ children => piecesFor inHeader children
  | node .arguments _ _ children => piecesList inHeader children
  | node .initializerList _ _ children => piecesList inHeader children
  | node _ _ _ children => piecesAll inHeader children

/-- The pieces of some trees one after the other. -/
def piecesAll (inHeader : Bool) : List Tree → List Piece
  | [] => []
  | t :: others => t.pieces inHeader ++ piecesAll inHeader others

/-- The pieces of a loop, of which all but the last child are the header. -/
def piecesFor (inHeader : Bool) : List Tree → List Piece
  | [] => []
  | [body] => body.pieces inHeader
  | t :: next :: others => t.pieces true ++ piecesFor inHeader (next :: others)

/-- The pieces of some trees with commas between them. -/
def piecesList (inHeader : Bool) : List Tree → List Piece
  | [] => []
  | [t] => t.pieces inHeader
  | t :: next :: others =>
    t.pieces inHeader ++ .word [','] :: piecesList inHeader (next :: others)

end

/-- The code generated for a tree. -/
def code (t : Tree) : String :=
  String.ofList (Piece.render 0 true (t.pieces false))

end Tree

/-- A text with the given number of tabs before each line that is not empty. -/
def indent (depth : Nat) (text : List Char) : List Char :=
  Text.join ['\n'] ((Text.lines text).map fun line =>
    if line = [] then [] else List.replicate depth '\t' ++ line)

end TradeScript
