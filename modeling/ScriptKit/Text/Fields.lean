/-! Cutting a text at separators. -/

namespace ScriptKit.Text

/-- The pieces between separators. Empty ones are left out. -/
def fields (separates : Char → Bool) (text : List Char) : List (List Char) :=
  go [] text
where
  /-- `piece` holds the current piece backwards. -/
  go : List Char → List Char → List (List Char)
    | piece, [] => if piece.isEmpty then [] else [piece.reverse]
    | piece, c :: rest =>
      if separates c then
        if piece.isEmpty then go [] rest else piece.reverse :: go [] rest
      else go (c :: piece) rest

end ScriptKit.Text
