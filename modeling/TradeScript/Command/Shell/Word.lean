import TradeScript.Text.Blank
import TradeScript.Token.Fragment

/-!
# Words of shell scripts

A word of a script is made of pieces: text, values of parameters and outputs of scripts, each inside
quotes or not. `items` cuts a script into words, marks and redirections.
-/

namespace TradeScript

namespace Shell

/-- How the value of a parameter is changed before it is used. -/
inductive Change
  | keep
  | size
  /-- Another text for a parameter without a value, or also for an empty one. -/
  | otherwise (alsoIfEmpty : Bool) (chars : List Char)
  /-- Another text for a parameter with a value, unless it is empty and this counts as none. -/
  | instead (alsoIfEmpty : Bool) (chars : List Char)
  /-- Without the shortest or longest part at its front or end that has a pattern. -/
  | without (atEnd longest : Bool) (chars : List Char)

/-- What a piece of a word stands for. -/
inductive Part
  | text (chars : List Char)
  | parameter (name : List Char) (change : Change)
  /-- The output of a script. -/
  | output (script : List Char)
  /-- The value of something that was written in the place of this piece. -/
  | value (chars : List Char)

/-- A piece of a word. -/
structure Piece where
  isQuoted : Bool
  part : Part

/-- A word of a script. -/
abbrev Word := List Piece

/-- A sign that stands between words. -/
inductive Mark
  | newline
  | semicolon
  | doubleSemicolon
  | background
  | both
  | either
  | pipe
  | opening
  | closing
  deriving DecidableEq

/-- The mark as complaints call it. -/
def Mark.describe : Mark → String
  | newline => "newline"
  | semicolon => "\";\""
  | doubleSemicolon => "\";;\""
  | background => "\"&\""
  | both => "\"&&\""
  | either => "\"||\""
  | pipe => "\"|\""
  | opening => "\"(\""
  | closing => "\")\""

/-- The standard streams of a program. -/
inductive Stream
  | input
  | output
  | errors
  deriving DecidableEq

/-- What becomes of a stream. -/
inductive Turn
  /-- It is read from the file that the next word names. -/
  | source
  /-- It is sent to the file that the next word names. -/
  | target (append : Bool)
  /-- It goes where the stream with the number in the next word goes. -/
  | same
  deriving DecidableEq

/-- An element of a script. -/
inductive Item
  | word (word : Word)
  | mark (mark : Mark)
  | turn (stream : Stream) (turn : Turn)
  /-- The script ends inside quotes. -/
  | unclosed
  | ending

/-! ## Parameters and outputs -/

/-- The open quote after one more character. -/
def quoteAfter (quote : Option Quote) (c : Char) : Option Quote :=
  match quote with
  | some opened => if c = opened.char then none else quote
  | none => Quote.ofChar? c

/-- The number of characters before the parenthesis that closes one already open. -/
def sizeToClosing (depth : Nat) (quote : Option Quote) : List Char → Nat
  | [] => 0
  | c :: cs =>
    if quote.isSome then sizeToClosing depth (quoteAfter quote c) cs + 1
    else if c = ')' then
      match depth with
      | 0 => 0
      | depth + 1 => sizeToClosing depth none cs + 1
    else sizeToClosing (if c = '(' then depth + 1 else depth) (quoteAfter none c) cs + 1

/-- What is written after the name of a parameter in braces. -/
def changeOf : List Char → Change
  | [] => .keep
  | ':' :: '-' :: cs => .otherwise true cs
  | '-' :: cs => .otherwise false cs
  | ':' :: '=' :: cs => .otherwise true cs
  | '=' :: cs => .otherwise false cs
  | ':' :: '+' :: cs => .instead false cs
  | '+' :: cs => .instead true cs
  | '#' :: '#' :: cs => .without false true cs
  | '#' :: cs => .without false false cs
  | '%' :: '%' :: cs => .without true true cs
  | '%' :: cs => .without true false cs
  | _ => .keep

/-- Whether a character is the name of a special parameter. -/
def isSpecial (c : Char) : Bool :=
  c ∈ ['@', '*', '#', '?', '$', '!', '-']

/-- What the text in braces after a dollar sign stands for. -/
def inBraces (cs : List Char) : Part :=
  match cs with
  | '#' :: c :: others => .parameter (c :: others) .size
  | c :: others =>
    if isSpecial c then .parameter [c] (changeOf others)
    else .parameter (cs.takeWhile Text.isWordChar) (changeOf (cs.dropWhile Text.isWordChar))
  | [] => .parameter [] .keep

/-- What follows a dollar sign, if it means more than itself, and the text after it. -/
def dollar? : List Char → Option (Part × List Char)
  | [] => none
  | '(' :: cs =>
    let size := sizeToClosing 0 none cs
    some (.output (cs.take size), cs.drop (size + 1))
  | '{' :: cs =>
    some (inBraces (cs.takeWhile (· ≠ '}')), (cs.dropWhile (· ≠ '}')).drop 1)
  | c :: cs =>
    if Text.isDigit c ∨ isSpecial c then some (.parameter [c] .keep, cs)
    else if Text.isWordChar c then
      some (.parameter (c :: cs.takeWhile Text.isWordChar) .keep, cs.dropWhile Text.isWordChar)
    else none

theorem dollar?_rest_length_lt {cs rest : List Char} {part : Part}
    (h : dollar? cs = some (part, rest)) : rest.length < cs.length := by
  unfold dollar? at h
  split at h
  · cases h
  · next cs =>
    cases h
    simp only [List.length_drop, List.length_cons]
    omega
  · next cs =>
    cases h
    have := Text.dropWhile_length_le (· ≠ '}') cs
    simp only [List.length_drop, List.length_cons]
    omega
  · next c cs _ _ =>
    split at h
    · cases h
      simp
    · split at h
      · cases h
        have := Text.dropWhile_length_le Text.isWordChar cs
        simp only [List.length_cons]
        omega
      · cases h

/-! ## Items -/

/-- The word read so far as an item. -/
def finish : Option Word → List Item
  | none => []
  | some word => [.word word]

/-- The word read so far with one more piece. -/
def extend (word : Option Word) (isQuoted : Bool) (part : Part) : Option Word :=
  some (word.getD [] ++ [⟨isQuoted, part⟩])

/-- The word read so far with one more character. -/
def extendChar (word : Option Word) (isQuoted : Bool) (c : Char) : Option Word :=
  extend word isQuoted (.text [c])

/-- The character that opens and closes the script of an output. -/
def backquote : Char :=
  Char.ofNat 0x60

/-- The characters of a piece that is written plainly. -/
def Piece.plain? : Piece → Option (List Char)
  | ⟨false, .text chars⟩ => some chars
  | _ => none

/-- The text of a word that is written plainly. -/
def plainText? (word : Word) : Option String :=
  (word.mapM Piece.plain?).map fun texts => String.ofList texts.flatten

/-- The stream that the word directly before an arrow selects. -/
def selected? (word : Option Word) : Option Stream :=
  match word.bind plainText? with
  | some "0" => some .input
  | some "1" => some .output
  | some "2" => some .errors
  | _ => none

/-- The items of an arrow after the word read so far: the word may select the stream. -/
def arrow (word : Option Word) (usual : Stream) (turn : Turn) : List Item :=
  match selected? word with
  | some stream => [.turn stream turn]
  | none => finish word ++ [.turn usual turn]

/-- A mark of two equal characters or one, and whether it has two. -/
def markOf? (c : Char) (next : Option Char) : Option (Mark × Bool) :=
  let doubled := next = some c
  if c = '\n' then some (.newline, false)
  else if c = ';' then some (if doubled then (.doubleSemicolon, true) else (.semicolon, false))
  else if c = '&' then some (if doubled then (.both, true) else (.background, false))
  else if c = '|' then some (if doubled then (.either, true) else (.pipe, false))
  else if c = '(' then some (.opening, false)
  else if c = ')' then some (.closing, false)
  else none

/-- The items of a script, given the open quote and the word read so far. -/
def itemsFrom (quote : Option Quote) (word : Option Word) (cs : List Char) : List Item :=
  match quote, cs with
  | none, [] => finish word
  | some _, [] => [.unclosed]
  | some .single, c :: cs =>
    if c = '\'' then itemsFrom none word cs
    else itemsFrom quote (extendChar word true c) cs
  | some .double, c :: cs =>
    if c = '"' then itemsFrom none word cs
    else if c = '\\' then
      match cs with
      | [] => [.unclosed]
      | d :: ds =>
        let word :=
          if d = '\n' then word
          else if d ∈ ['"', '\\', '$', backquote] then extendChar word true d
          else extendChar (extendChar word true c) true d
        itemsFrom quote word ds
    else if c = '$' then
      match _ : dollar? cs with
      | some (part, rest) => itemsFrom quote (extend word true part) rest
      | none => itemsFrom quote (extendChar word true c) cs
    else if c = backquote then
      let script := cs.takeWhile (· ≠ backquote)
      itemsFrom quote (extend word true (.output script)) (cs.drop (script.length + 1))
    else itemsFrom quote (extendChar word true c) cs
  | none, c :: cs =>
    if c = ' ' ∨ c = '\t' then finish word ++ itemsFrom none none cs
    else if c = '#' ∧ word.isNone then itemsFrom none none (cs.dropWhile (· ≠ '\n'))
    else if c = '\'' then itemsFrom (some .single) (extend word true (.text [])) cs
    else if c = '"' then itemsFrom (some .double) (extend word true (.text [])) cs
    else if c = '\\' then
      match cs with
      | [] => finish (extendChar word true c)
      | d :: ds =>
        if d = '\n' then itemsFrom none word ds
        else itemsFrom none (extendChar word true d) ds
    else if c = '$' then
      match _ : dollar? cs with
      | some (part, rest) => itemsFrom none (extend word false part) rest
      | none => itemsFrom none (extendChar word false c) cs
    else if c = backquote then
      let script := cs.takeWhile (· ≠ backquote)
      itemsFrom none (extend word false (.output script)) (cs.drop (script.length + 1))
    else if c = '<' then arrow word .input .source ++ itemsFrom none none cs
    else if c = '>' then
      if cs.head? = some '>' then
        arrow word .output (.target true) ++ itemsFrom none none cs.tail
      else if cs.head? = some '&' then arrow word .output .same ++ itemsFrom none none cs.tail
      else arrow word .output (.target false) ++ itemsFrom none none cs
    else
      match markOf? c cs.head? with
      | some (mark, doubled) =>
        finish word ++ .mark mark :: itemsFrom none none (if doubled then cs.tail else cs)
      | none => itemsFrom none (extendChar word false c) cs
  termination_by cs.length
  decreasing_by
    all_goals first
      | exact Nat.lt_succ_of_le (Text.dropWhile_length_le _ _)
      | exact Nat.lt_succ_of_lt (dollar?_rest_length_lt ‹_›)
      | (simp only [List.length_cons, List.length_tail, List.length_drop]
         omega)
      | (split <;> simp only [List.length_cons, List.length_tail] <;> omega)

/-- The items of a script. -/
def items (script : List Char) : List Item :=
  itemsFrom none none script

end Shell

end TradeScript
