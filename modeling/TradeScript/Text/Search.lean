/-!
# Searching and replacing

`dropPrefix?` takes a text off the front of another, `occurs` looks for one text inside another and
`replaceChar` puts a text in the place of each occurrence of a character.
-/

namespace TradeScript

namespace Text

/-- What follows `start` in a text that begins with it. -/
def dropPrefix? : (start : List Char) → List Char → Option (List Char)
  | [], cs => some cs
  | _ :: _, [] => none
  | s :: start, c :: cs => if s = c then dropPrefix? start cs else none

/-- Whether a text begins with `start`. -/
def beginsWith (start cs : List Char) : Bool :=
  (dropPrefix? start cs).isSome

/-- Whether `wanted` stands anywhere in a text. -/
def occurs (wanted : List Char) : List Char → Bool
  | [] => wanted.isEmpty
  | c :: cs => beginsWith wanted (c :: cs) || occurs wanted cs

/-- A text with `substitute` in the place of each `c`. -/
def replaceChar (c : Char) (substitute : List Char) (cs : List Char) : List Char :=
  cs.flatMap fun d => if d = c then substitute else [d]

theorem dropPrefix?_eq_some_iff {start cs rest : List Char} :
    dropPrefix? start cs = some rest ↔ cs = start ++ rest := by
  induction start generalizing cs with
  | nil => simp [dropPrefix?]
  | cons s start ih =>
    cases cs with
    | nil => simp [dropPrefix?]
    | cons c cs =>
      by_cases h : s = c
      · subst h
        simp [dropPrefix?, ih]
      · simp [dropPrefix?, h, Ne.symm h]

theorem dropPrefix?_append (start rest : List Char) :
    dropPrefix? start (start ++ rest) = some rest :=
  dropPrefix?_eq_some_iff.2 rfl

theorem beginsWith_iff {start cs : List Char} : beginsWith start cs = true ↔ start <+: cs := by
  rw [beginsWith, Option.isSome_iff_exists]
  exact exists_congr fun rest => dropPrefix?_eq_some_iff.trans eq_comm

theorem occurs_iff {wanted cs : List Char} : occurs wanted cs = true ↔ wanted <:+: cs := by
  induction cs with
  | nil => rw [occurs, List.isEmpty_iff, List.infix_nil]
  | cons c cs ih => rw [occurs, Bool.or_eq_true, beginsWith_iff, ih, List.infix_cons_iff]

end Text

end TradeScript
