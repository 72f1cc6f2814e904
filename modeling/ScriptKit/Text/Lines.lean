/-! The lines of a text. -/

namespace ScriptKit.Text

/-- Drops a carriage return from the front of a line that is written backwards. -/
def dropReturn : List Char → List Char
  | '\r' :: line => line
  | line => line

/-- The lines of a text without their ends. A line feed ends a line, and so does a line feed with a
carriage return before it; a carriage return on its own does not. What stands behind the last end is
a line too, unless it is empty. -/
def lines (text : List Char) : List (List Char) :=
  go [] text
where
  /-- `line` holds the current line backwards. -/
  go : List Char → List Char → List (List Char)
    | line, [] => if line.isEmpty then [] else [line.reverse]
    | line, '\n' :: rest => (dropReturn line).reverse :: go [] rest
    | line, c :: rest => go (c :: line) rest

end ScriptKit.Text
