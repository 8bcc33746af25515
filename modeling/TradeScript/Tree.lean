import TradeScript.Grammar

/-!
# Trees

How a script was read: the leaves are its tokens and the inner nodes its phrases, each with the
alternative that it took and the place where it starts. `Tree.descendants` lists the nodes of a
tree, a node before those below it; the searches go through that list or the direct children.

Main statement: `Tree.descendants_eq` (the list is the node and then the lists of its children).
-/

namespace TradeScript

/-- A node of a parse tree. -/
inductive Tree
  | leaf (token : Token)
  | node (head : NonTerminal) (choice : Nat) (start : Position) (children : List Tree)

namespace Tree

/-! ## Parts of a node -/

/-- The direct children of a node. -/
def children : Tree → List Tree
  | leaf _ => []
  | node _ _ _ children => children

/-- The place where a node starts. -/
def start : Tree → Position
  | leaf token => token.start
  | node _ _ start _ => start

/-- The alternative that a phrase took; zero for a token. -/
def choice : Tree → Nat
  | leaf _ => 0
  | node _ choice _ _ => choice

/-- The symbol that a node matches. -/
def symbol : Tree → Symbol
  | leaf token => .terminal token.kind
  | node head _ _ _ => .nonTerminal head

/-- The token of a leaf. -/
def token? : Tree → Option Token
  | leaf token => some token
  | node .. => none

/-- Whether a node is a phrase of the given kind. -/
def isPhrase (n : NonTerminal) (t : Tree) : Bool :=
  t.symbol = .nonTerminal n

/-- Whether a node is a token of the given kind. -/
def isToken (k : Terminal) (t : Tree) : Bool :=
  t.symbol = .terminal k

/-- The first direct child that is a phrase of the given kind. -/
def child? (t : Tree) (n : NonTerminal) : Option Tree :=
  t.children.find? (isPhrase n)

/-- The first direct child that is a token of the given kind. -/
def tokenChild? (t : Tree) (k : Terminal) : Option Token :=
  (t.children.find? (isToken k)).bind token?

/-! ## All nodes -/

mutual

/-- The number of nodes of a tree. -/
def size : Tree → Nat
  | leaf _ => 1
  | node _ _ _ children => sizeAll children + 1

/-- The number of nodes of some trees. -/
def sizeAll : List Tree → Nat
  | [] => 0
  | t :: others => t.size + sizeAll others

end

theorem sizeAll_append (ts us : List Tree) : sizeAll (ts ++ us) = sizeAll ts + sizeAll us := by
  induction ts with
  | nil => simp [sizeAll]
  | cons t ts ih => simp [sizeAll, ih]; omega

theorem size_eq (t : Tree) : t.size = sizeAll t.children + 1 := by
  cases t <;> simp [size, children, sizeAll]

/-- The nodes of the pending trees: the first is taken off and its children take its place. -/
def walk : (pending : List Tree) → List Tree
  | [] => []
  | t :: others => t :: walk (t.children ++ others)
  termination_by pending => sizeAll pending
  decreasing_by
    simp only [sizeAll_append, sizeAll, size_eq]
    omega

/-- The nodes of a tree, each before those below it. -/
def descendants (t : Tree) : List Tree :=
  walk [t]

theorem walk_append (ts us : List Tree) : walk (ts ++ us) = walk ts ++ walk us := by
  fun_induction walk ts with
  | case1 => rfl
  | case2 t others ih =>
    rw [List.cons_append, walk, ← List.append_assoc, ih]
    rfl

theorem walk_eq_flatMap (ts : List Tree) : walk ts = ts.flatMap descendants := by
  induction ts with
  | nil => simp [walk]
  | cons t others ih =>
    rw [← List.singleton_append, walk_append, ih]
    rfl

theorem descendants_eq (t : Tree) : t.descendants = t :: t.children.flatMap descendants := by
  rw [descendants, walk, List.append_nil, walk_eq_flatMap]

/-- The phrases of the given kind, in the order of the script. -/
def phrases (t : Tree) (n : NonTerminal) : List Tree :=
  t.descendants.filter (isPhrase n)

/-- The tokens of a tree, in the order of the script. -/
def tokens (t : Tree) : List Token :=
  t.descendants.filterMap token?

theorem tokens_eq (t : Tree) : t.tokens = t.token?.toList ++ t.children.flatMap tokens := by
  unfold tokens
  rw [descendants_eq, List.filterMap_cons, List.filterMap_flatMap]
  cases t <;> rfl

/-- Whether a token of the given kind stands anywhere in a tree. -/
def containsToken (t : Tree) (k : Terminal) : Bool :=
  t.descendants.any (isToken k)

end Tree

end TradeScript
