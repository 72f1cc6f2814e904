import ScriptKit.Text.Identifier
import ScriptKit.Token.Basic

/-! The token at the front of a text, found without regard to where the text stands. -/

namespace ScriptKit

inductive LexErrorKind where
  | unexpectedChar (c : Char)
  | unterminatedString
  | unterminatedComment
deriving DecidableEq, Repr

/-- Blanks separate tokens and mean nothing else. The vertical tab is not one of them. -/
def isBlank (c : Char) : Bool :=
  c = ' ' || c = '\t' || c = '\n' || c = '\x0c' || c = '\r'

structure Lexeme where
  kind : TokenKind
  text : List Char
  taken : List Char
  rest : List Char
deriving Repr

namespace Lexeme

def pair? (c : Char) : List Char → Option Lexeme
  | [] => none
  | d :: rest => (TokenKind.operator? c d).map fun kind => ⟨kind, [c, d], [c, d], rest⟩

/-- A string that `quote` has opened: it runs to the next `quote`, and nothing in it is special. -/
def string (quote : Char) (cs : List Char) : Except LexErrorKind Lexeme :=
  let body := cs.takeWhile (· ≠ quote)
  match cs.dropWhile (· ≠ quote) with
  | [] => .error .unterminatedString
  | closing :: rest => .ok ⟨.text, body, quote :: body ++ [closing], rest⟩

def number (c : Char) (cs : List Char) : Lexeme :=
  let digits := c :: cs.takeWhile Char.isDigit
  ⟨.integer, digits, digits, cs.dropWhile Char.isDigit⟩

/-- A keyword, if the whole word is one, and else a name. -/
def word (c : Char) (cs : List Char) : Lexeme :=
  let letters := c :: cs.takeWhile isLetterOrDigit
  let kind := (TokenKind.keyword? (String.ofList letters)).getD .identifier
  ⟨kind, letters, letters, cs.dropWhile isLetterOrDigit⟩

def read (c : Char) (cs : List Char) : Except LexErrorKind Lexeme :=
  match pair? c cs with
  | some l => .ok l
  | none =>
    match TokenKind.punctuation? c with
    | some kind => .ok ⟨kind, [c], [c], cs⟩
    | none =>
      if c = '"' ∨ c = '\'' then string c cs
      else if c.isDigit then .ok (number c cs)
      else if isLetter c then .ok (word c cs)
      else .error (.unexpectedChar c)

theorem length_dropWhile_le (p : Char → Bool) (cs : List Char) :
    (cs.dropWhile p).length ≤ cs.length :=
  (List.dropWhile_sublist p).length_le

theorem length_rest_read {c : Char} {cs : List Char} {l : Lexeme} (found : read c cs = .ok l) :
    l.rest.length ≤ cs.length := by
  unfold read at found
  split at found
  · rename_i l' hp
    cases found
    cases cs with
    | nil => simp [pair?] at hp
    | cons d ds =>
      simp only [pair?, Option.map_eq_some_iff] at hp
      obtain ⟨kind, _, rfl⟩ := hp
      simp
  · split at found
    · cases found; simp
    · split at found
      · unfold string at found
        have shorter := length_dropWhile_le (· ≠ c) cs
        split at found
        · cases found
        · rename_i closing rest hd
          cases found
          simp only [hd, List.length_cons] at shorter ⊢
          omega
      · split at found
        · cases found; exact length_dropWhile_le _ _
        · split at found
          · cases found; exact length_dropWhile_le _ _
          · cases found

end Lexeme

end ScriptKit
