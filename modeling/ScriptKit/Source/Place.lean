/-! Lines and columns, both counted from one.

A line ends at a line feed, at a carriage return that no line feed follows, or at the two
together, which count once. A column counts characters. -/

namespace ScriptKit

structure Place where
  line : Nat
  column : Nat
deriving DecidableEq, Repr, Inhabited

namespace Place

def origin : Place := ⟨1, 1⟩

def nextLine (p : Place) : Place := ⟨p.line + 1, 1⟩

/-- The place behind `c`, when `next` is the character that follows it. -/
def step (p : Place) (c : Char) (next : Option Char) : Place :=
  if c = '\n' then p.nextLine
  else if c = '\r' then if next = some '\n' then p else p.nextLine
  else ⟨p.line, p.column + 1⟩

end Place

def byteLength (text : List Char) : Nat :=
  text.foldr (fun c n => c.utf8Size + n) 0

/-- The place of the byte at `offset`. A byte inside a character has the place behind that
character, and an offset past the end has the place of the end. -/
def lineColumn (text : List Char) (offset : Nat) : Place :=
  go text offset 1 1
where
  go : List Char → Nat → Nat → Nat → Place
    | [], _, line, column => ⟨line, column⟩
    | c :: rest, left, line, column =>
      if left = 0 then ⟨line, column⟩
      else if c = '\r' ∧ rest.head? = some '\n' then go rest (left - 1) line column
      else if c = '\n' ∨ c = '\r' then go rest (left - 1) (line + 1) 1
      else go rest (left - c.utf8Size) line (column + 1)

end ScriptKit
