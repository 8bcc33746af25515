import TradeScript.Text.Numeral
import TradeScript.Token

/-!
# Fragments

The pieces of a script before adjacent ones are joined to tokens: words, single marks, literals,
stray characters, and literals that their line does not close. `Fragment.scan` cuts a text into
fragments and keeps their places; a line of the form `@<line>:<file>` (a marker) is no fragment but
says which file and line the next line comes from.

Main statements: `cut_append` (a cut loses nothing) and `closing?_append` (nor does the search for
the end of a literal).
-/

namespace TradeScript

/-- The quotes around literals. -/
inductive Quote
  | double
  | single
  deriving DecidableEq

namespace Quote

/-- The character of a quote. -/
def char : Quote → Char
  | double => '"'
  | single => '\''

/-- The quote with a given character. -/
def ofChar? (c : Char) : Option Quote :=
  if c = '"' then some double else if c = '\'' then some single else none

/-- The kind of literal between these quotes. -/
def terminal : Quote → Terminal
  | double => .string
  | single => .character

end Quote

/-! ## Markers -/

namespace Marker

/-- The character at the front of a marker. -/
def sign : Char := '@'

/-- The line number and file that a line announces, if it is a marker. -/
def read? : List Char → Option (Nat × List Char)
  | [] => none
  | c :: body =>
    match body.dropWhile (· ≠ ':') with
    | [] => none
    | _ :: file =>
      if c = sign then (Text.lineNumber? (body.takeWhile (· ≠ ':'))).map (·, file) else none

/-- The marker for a line of a file. -/
def write (line : Nat) (file : String) : List Char :=
  sign :: (Text.decimal line ++ ':' :: file.toList)

end Marker

/-- What a fragment is. -/
inductive Fragment.Kind
  | word
  | mark (m : Mark)
  | literal (q : Quote)
  | stray
  /-- A literal whose line ends before it does. -/
  | unclosed (q : Quote)
  deriving DecidableEq

/-- A piece of a script. It is glued if nothing separates it from the piece before it. -/
structure Fragment where
  kind : Fragment.Kind
  text : List Char
  start : Position
  glued : Bool

namespace Fragment

/-- Whether a fragment is a word of digits only. -/
def isDigits (f : Fragment) : Bool :=
  f.kind = .word && f.text.all Text.isDigit

/-! ## Cutting one fragment -/

/-- The rest of a literal after its opening quote, up to the closing one, and what follows it. A
backslash takes the next character of the line along. -/
def closing? (quote : Char) : List Char → Option (List Char × List Char)
  | [] => none
  | c :: cs =>
    if c = '\n' then none
    else if c = '\\' then
      match cs with
      | [] => none
      | d :: ds =>
        if d = '\n' then none
        else (closing? quote ds).map fun (body, rest) => (c :: d :: body, rest)
    else if c = quote then some ([c], cs)
    else (closing? quote cs).map fun (body, rest) => (c :: body, rest)

/-- The fragment at the front of a text that starts with a character other than a blank: its kind,
its characters and what follows it. -/
def cut (c : Char) (cs : List Char) : Kind × List Char × List Char :=
  if Text.isWordChar c then (.word, c :: cs.takeWhile Text.isWordChar, cs.dropWhile Text.isWordChar)
  else
    match Quote.ofChar? c with
    | some q =>
      match closing? c cs with
      | some (body, rest) => (.literal q, c :: body, rest)
      | none => (.unclosed q, c :: cs.takeWhile (· ≠ '\n'), cs.dropWhile (· ≠ '\n'))
    | none =>
      match Mark.ofChar? c with
      | some m => (.mark m, [c], cs)
      | none => (.stray, [c], cs)

theorem closing?_append {quote : Char} {cs body rest : List Char}
    (h : closing? quote cs = some (body, rest)) : body ++ rest = cs := by
  fun_induction closing? quote cs generalizing body rest with
  | case1 => simp at h
  | case2 => simp at h
  | case3 => simp at h
  | case4 => simp at h
  | case5 d ds _ _ ih =>
    obtain ⟨⟨b, r⟩, hbr, heq⟩ := Option.map_eq_some_iff.1 h
    obtain ⟨rfl, rfl⟩ := Prod.mk.inj heq
    simp [ih hbr]
  | case6 cs _ _ =>
    obtain ⟨rfl, rfl⟩ := Prod.mk.inj (Option.some.inj h)
    rfl
  | case7 c cs _ _ _ ih =>
    obtain ⟨⟨b, r⟩, hbr, heq⟩ := Option.map_eq_some_iff.1 h
    obtain ⟨rfl, rfl⟩ := Prod.mk.inj heq
    simp [ih hbr]

theorem cut_append (c : Char) (cs : List Char) : (cut c cs).2.1 ++ (cut c cs).2.2 = c :: cs := by
  unfold cut
  split
  · simp [List.takeWhile_append_dropWhile]
  · split
    · split
      · next h => simp [closing?_append h]
      · simp [List.takeWhile_append_dropWhile]
    · split <;> rfl

theorem cut_text_ne_nil (c : Char) (cs : List Char) : (cut c cs).2.1 ≠ [] := by
  unfold cut
  repeat' split
  all_goals simp

theorem cut_rest_length_le (c : Char) (cs : List Char) : (cut c cs).2.2.length ≤ cs.length := by
  have whole := congrArg List.length (cut_append c cs)
  have some_text := List.length_pos_iff.2 (cut_text_ne_nil c cs)
  simp only [List.length_append, List.length_cons] at whole
  omega

/-! ## Scanning -/

/-- The fragments of a text whose first character stands at `here`. -/
def scan (here : Position) (glued : Bool) : List Char → List Fragment
  | [] => []
  | c :: cs =>
    if c = '\n' then scan here.nextLine false cs
    else
      match if here.column = 1 then Marker.read? (c :: cs.takeWhile (· ≠ '\n')) else none with
      | some (line, file) =>
        scan ⟨String.ofList file, line, 1⟩ false ((cs.dropWhile (· ≠ '\n')).drop 1)
      | none =>
        if Text.isBlank c then scan (here.advance 1) false cs
        else
          ⟨(cut c cs).1, (cut c cs).2.1, here, glued⟩ ::
            scan (here.advance (cut c cs).2.1.length) true (cut c cs).2.2
  termination_by cs => cs.length
  decreasing_by
    · simp
    · have := Text.dropWhile_length_le (· ≠ '\n') cs
      simp only [List.length_drop, List.length_cons]
      omega
    · simp
    · have := cut_rest_length_le c cs
      simp
      omega

/-- The fragments of a text that belongs to `file` until a marker says otherwise. -/
def ofText (file : String) (text : String) : List Fragment :=
  scan (Position.first file) false text.toList

end Fragment

end TradeScript
