/-!
# Terminals

The kinds of token that the grammar of scripts speaks of: keywords, single punctuation characters
(`Mark`), operators of two characters (`Operator`) and the open classes of words and literals.
`Terminal.describe` is how a message names a kind.
-/

namespace TradeScript

/-- The reserved words that have a rule of their own. -/
inductive Keyword
  | const
  | «if»
  | «else»
  | «for»
  | «while»
  | «return»
  | «break»
  | «continue»
  | true
  | false
  | buy
  | sell
  | doNothing
  deriving DecidableEq

/-- The punctuation characters. -/
inductive Mark
  | leftParen
  | rightParen
  | leftBrace
  | rightBrace
  | leftBracket
  | rightBracket
  | semicolon
  | comma
  | period
  | colon
  | question
  | plus
  | minus
  | star
  | slash
  | percent
  | bang
  | tilde
  | less
  | greater
  | assign
  | ampersand
  | pipe
  | caret
  | hash
  | dollar
  deriving DecidableEq

/-- The operators written as two adjacent marks. -/
inductive Operator
  | and
  | or
  | equal
  | notEqual
  | lessEqual
  | greaterEqual
  | plusAssign
  | minusAssign
  | starAssign
  | slashAssign
  | increment
  | decrement
  deriving DecidableEq

/-- The kinds of token. -/
inductive Terminal
  | identifier
  /-- An identifier that a required indicator declares as its class. -/
  | indicatorName
  | number
  | string
  | character
  | typeName
  | keyword (k : Keyword)
  | mark (m : Mark)
  | operator (o : Operator)
  /-- A piece that fits no other kind. -/
  | unknown
  deriving DecidableEq

/-! ## Keywords -/

namespace Keyword

/-- The keywords in their fixed order. -/
def all : List Keyword :=
  [const, «if», «else», «for», «while», «return», «break», «continue», true, false, buy, sell,
    doNothing]

/-- The spelling of a keyword. -/
def word : Keyword → String
  | const => "const"
  | «if» => "if"
  | «else» => "else"
  | «for» => "for"
  | «while» => "while"
  | «return» => "return"
  | «break» => "break"
  | «continue» => "continue"
  | true => "true"
  | false => "false"
  | buy => "buy"
  | sell => "sell"
  | doNothing => "do_nothing"

end Keyword

/-! ## Marks -/

namespace Mark

/-- The marks in their fixed order. -/
def all : List Mark :=
  [leftParen, rightParen, leftBrace, rightBrace, leftBracket, rightBracket, semicolon, comma,
    period, colon, question, plus, minus, star, slash, percent, bang, tilde, less, greater, assign,
    ampersand, pipe, caret, hash, dollar]

/-- The character of a mark. -/
def char : Mark → Char
  | leftParen => '('
  | rightParen => ')'
  | leftBrace => '{'
  | rightBrace => '}'
  | leftBracket => '['
  | rightBracket => ']'
  | semicolon => ';'
  | comma => ','
  | period => '.'
  | colon => ':'
  | question => '?'
  | plus => '+'
  | minus => '-'
  | star => '*'
  | slash => '/'
  | percent => '%'
  | bang => '!'
  | tilde => '~'
  | less => '<'
  | greater => '>'
  | assign => '='
  | ampersand => '&'
  | pipe => '|'
  | caret => '^'
  | hash => '#'
  | dollar => '$'

/-- The mark with a given character. -/
def ofChar? (c : Char) : Option Mark :=
  all.find? fun m => m.char = c

theorem mem_all (m : Mark) : m ∈ all := by
  cases m <;> decide

theorem ofChar?_eq_some_iff {c : Char} {m : Mark} : ofChar? c = some m ↔ m.char = c := by
  constructor
  · intro h
    simpa using List.find?_some h
  · rintro rfl
    cases m <;> decide

end Mark

/-! ## Operators -/

namespace Operator

/-- The operators in their fixed order. -/
def all : List Operator :=
  [and, or, equal, notEqual, lessEqual, greaterEqual, plusAssign, minusAssign, starAssign,
    slashAssign, increment, decrement]

/-- The two marks of an operator. -/
def marks : Operator → Mark × Mark
  | and => (.ampersand, .ampersand)
  | or => (.pipe, .pipe)
  | equal => (.assign, .assign)
  | notEqual => (.bang, .assign)
  | lessEqual => (.less, .assign)
  | greaterEqual => (.greater, .assign)
  | plusAssign => (.plus, .assign)
  | minusAssign => (.minus, .assign)
  | starAssign => (.star, .assign)
  | slashAssign => (.slash, .assign)
  | increment => (.plus, .plus)
  | decrement => (.minus, .minus)

/-- The operator that two adjacent marks form. -/
def ofMarks? (first second : Mark) : Option Operator :=
  all.find? fun o => o.marks = (first, second)

/-- The spelling of an operator. -/
def word (o : Operator) : String :=
  String.ofList [o.marks.1.char, o.marks.2.char]

theorem ofMarks?_eq_some_iff {first second : Mark} {o : Operator} :
    ofMarks? first second = some o ↔ o.marks = (first, second) := by
  constructor
  · intro h
    simpa using List.find?_some h
  · intro h
    obtain ⟨rfl, rfl⟩ := Prod.mk.inj h
    cases o <;> decide

end Operator

/-! ## Terminals -/

namespace Terminal

/-- The terminals in their fixed order. -/
def all : List Terminal :=
  [identifier, indicatorName, number, string, character, typeName] ++ Keyword.all.map keyword ++
    Mark.all.map mark ++ Operator.all.map operator ++ [unknown]

/-- The words that name a built-in type. -/
def typeNames : List String :=
  ["int", "double", "float", "bool", "long", "short", "unsigned", "signed", "char", "auto",
    "size_t", "void"]

/-- The kind of a reserved word. -/
def ofReserved? (word : String) : Option Terminal :=
  match Keyword.all.find? fun k => k.word = word with
  | some k => some (keyword k)
  | none => if word ∈ typeNames then some typeName else none

/-- The kind formed by two adjacent tokens of one mark each. -/
def compound? : Terminal → Terminal → Option Terminal
  | mark first, mark second => (Operator.ofMarks? first second).map operator
  | _, _ => none

/-- The name of a kind in messages. -/
def describe : Terminal → String
  | identifier => "identifier"
  | indicatorName => "indicator name"
  | number => "number"
  | string => "string literal"
  | character => "character literal"
  | typeName => "type name"
  | keyword k => "'" ++ k.word ++ "'"
  | mark m => "'" ++ String.singleton m.char ++ "'"
  | operator o => "'" ++ o.word ++ "'"
  | unknown => "unrecognised token"

theorem mem_all (t : Terminal) : t ∈ all := by
  rcases t with _ | _ | _ | _ | _ | _ | k | m | o | _
  case keyword => cases k <;> decide
  case mark => cases m <;> decide
  case operator => cases o <;> decide
  all_goals decide

end Terminal

end TradeScript
