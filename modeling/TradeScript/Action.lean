import TradeScript.Tree

/-!
# Actions

What a script can ask the runtime to do, and the codes that the runtime expects.
-/

namespace TradeScript

/-- A trading action. -/
inductive Action
  | nothing
  | sell
  | buy
  deriving DecidableEq

namespace Action

/-- The code of an action in generated code. -/
def code : Action → Nat
  | nothing => 0
  | sell => 1
  | buy => 2

/-- The keyword that asks for an action. -/
def keyword : Action → Keyword
  | nothing => .doNothing
  | sell => .sell
  | buy => .buy

/-- The spelling of an action in scripts. -/
def word (a : Action) : String :=
  a.keyword.word

/-- The action that a kind of token asks for. -/
def ofTerminal? : Terminal → Option Action
  | .keyword .doNothing => some nothing
  | .keyword .sell => some sell
  | .keyword .buy => some buy
  | _ => none

theorem ofTerminal?_eq_some_iff {k : Terminal} {a : Action} :
    ofTerminal? k = some a ↔ k = .keyword a.keyword := by
  constructor
  · intro h
    unfold ofTerminal? at h
    split at h <;> cases h <;> rfl
  · rintro rfl
    cases a <;> rfl

end Action

namespace Tree

/-- The action that an action statement asks for. -/
def action? (statement : Tree) : Option Action := do
  let call ← statement.child? .actionCall
  let first ← call.children.head?
  let token ← first.token?
  Action.ofTerminal? token.kind

end Tree

end TradeScript
