import TradeScript.Grammar.NonTerminal
import TradeScript.Token

/-!
# Grammars

A grammar gives each non-terminal its alternatives, and each alternative is a sequence of symbols
that may be repeated (`Part`). Rules of one non-terminal are merged in order, and the empty
alternative is tried last (`Grammar.merge`).
-/

namespace TradeScript

/-- What a part of an alternative matches. -/
inductive Symbol
  | terminal (t : Terminal)
  | nonTerminal (n : NonTerminal)
  deriving DecidableEq

/-- How often a symbol may stand in its place. -/
inductive Repeat
  | once
  | optional
  | many
  /-- Any number, with a comma between neighbours. -/
  | separated
  deriving DecidableEq

/-- A symbol with its repetition. -/
structure Part where
  symbol : Symbol
  repeated : Repeat
  deriving DecidableEq

/-- A sequence of parts. -/
abbrev Alternative := List Part

/-- Alternatives for a non-terminal, in the order in which they are tried. -/
structure Rule where
  head : NonTerminal
  alternatives : List Alternative

/-- A start symbol, and the alternatives of every non-terminal that has a rule. -/
structure Grammar where
  root : NonTerminal
  rules : List (NonTerminal × List Alternative)

namespace Terminal

/-- The place of a terminal among all. -/
def index : Terminal → Nat
  | identifier => 0
  | indicatorName => 1
  | number => 2
  | string => 3
  | character => 4
  | typeName => 5
  | keyword k => 6 + k.ctorIdx
  | mark m => 19 + m.ctorIdx
  | operator o => 45 + o.ctorIdx
  | unknown => 57

theorem getElem?_index (t : Terminal) : all[t.index]? = some t := by
  rcases t with _ | _ | _ | _ | _ | _ | k | m | o | _
  case keyword => cases k <;> rfl
  case mark => cases m <;> rfl
  case operator => cases o <;> rfl
  all_goals rfl

instance : Listed Terminal where
  all := all
  index := index
  getElem?_index := getElem?_index

end Terminal

namespace Symbol

/-- The description of a symbol in messages. -/
def describe : Symbol → String
  | terminal t => t.describe
  | nonTerminal n => n.describe

/-- The non-terminal that a symbol is. -/
def nonTerminal? : Symbol → Option NonTerminal
  | terminal _ => none
  | nonTerminal n => some n

@[simp]
theorem nonTerminal?_eq_some {s : Symbol} {n : NonTerminal} :
    s.nonTerminal? = some n ↔ s = nonTerminal n := by
  cases s <;> simp [nonTerminal?]

/-- The symbols in their fixed order. -/
def all : List Symbol :=
  Terminal.all.map terminal ++ NonTerminal.all.map nonTerminal

/-- The place of a symbol among all. -/
def index : Symbol → Nat
  | terminal t => t.index
  | nonTerminal n => 58 + n.ctorIdx

theorem getElem?_index (s : Symbol) : all[s.index]? = some s := by
  rcases s with t | n
  · have within : t.index < Terminal.all.length := by
      have := Terminal.getElem?_index t
      exact (List.getElem?_eq_some_iff.1 this).1
    rw [all, index, List.getElem?_append_left (by simpa using within), List.getElem?_map,
      Terminal.getElem?_index]
    rfl
  · rw [all, index, List.getElem?_append_right (by simp [Terminal.all, Keyword.all, Mark.all,
      Operator.all])]
    cases n <;> rfl

instance : Listed Symbol where
  all := all
  index := index
  getElem?_index := getElem?_index

end Symbol

namespace Grammar

/-- The alternatives with the empty ones moved to the end. -/
def emptyLast (alternatives : List Alternative) : List Alternative :=
  alternatives.filter (!·.isEmpty) ++ alternatives.filter (·.isEmpty)

/-- The alternatives that a list of rules gives to each non-terminal with a rule. -/
def merge (rules : List Rule) : List (NonTerminal × List Alternative) :=
  NonTerminal.all.filterMap fun n =>
    match rules.filter fun r => r.head = n with
    | [] => none
    | own => some (n, emptyLast (own.flatMap Rule.alternatives))

/-- The alternatives of a non-terminal, none if it has no rule. -/
def alternatives (g : Grammar) (n : NonTerminal) : List Alternative :=
  (g.rules.lookup n).getD []

/-- Whether a non-terminal has a rule. -/
def hasRule (g : Grammar) (n : NonTerminal) : Bool :=
  (g.rules.lookup n).isSome

end Grammar

end TradeScript
