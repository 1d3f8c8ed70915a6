/-! Places in a text. A *position* counts characters and an *offset* counts the bytes of their UTF-8 form. A
    place is shown by its line and by a caret under the character; a text of several lines is also given the
    number of the line, counted from 1, and the column, counted from 0. A place at a line end belongs to the
    line that it ends. -/

namespace JsonQuery.Text

/-- The number of bytes of a text in UTF-8. -/
def utf8Length : List Char → Nat
  | [] => 0
  | c :: cs => c.utf8Size + utf8Length cs

/-- The byte offset of a position. -/
def offsetAt (cs : List Char) (position : Nat) : Nat := utf8Length (cs.take position)

/-- What the line of a position holds before it. -/
def lineBefore (cs : List Char) (position : Nat) : List Char :=
  ((cs.take position).reverse.takeWhile (· != '\n')).reverse

/-- What the line of a position holds from it on. -/
def lineAfter (cs : List Char) (position : Nat) : List Char :=
  (cs.drop position).takeWhile (· != '\n')

/-- The line that holds a position. -/
def lineAt (cs : List Char) (position : Nat) : List Char := lineBefore cs position ++ lineAfter cs position

/-- How far into its line a position is. -/
def columnAt (cs : List Char) (position : Nat) : Nat := (lineBefore cs position).length

/-- The number of the line that holds a position, counted from 1. -/
def lineNumberAt (cs : List Char) (position : Nat) : Nat := (cs.take position).count '\n' + 1

/-- A place in words. -/
def placeText (cs : List Char) (position : Nat) : String :=
  let plain := "position " ++ toString position
  if cs.contains '\n' then
    "line " ++ toString (lineNumberAt cs position) ++ ", column " ++ toString (columnAt cs position)
      ++ " (" ++ plain ++ ")"
  else plain

/-- A reason together with the place that it is about, its line and a caret. -/
def pointAt (reason : String) (cs : List Char) (position : Nat) : String :=
  reason ++ " at " ++ placeText cs position ++ ":\n" ++ String.ofList (lineAt cs position) ++ "\n"
    ++ String.ofList (List.replicate (columnAt cs position) ' ') ++ "^"

example : lineAt ['a', '\n', 'b', 'c'] 3 = ['b', 'c'] ∧ columnAt ['a', '\n', 'b', 'c'] 3 = 1 := by decide
example : lineAt ['a', '\n', 'b'] 1 = ['a'] ∧ lineNumberAt ['a', '\n', 'b'] 1 = 1 := by decide

end JsonQuery.Text
