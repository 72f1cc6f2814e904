import ScriptKit.Token.Lexeme

/-! Cutting a source into tokens, with the span and the two places of each.

Main statements: `Scanner.length_rest_next`, every token but the last one shortens the text that
remains, so that scanning ends. -/

namespace ScriptKit

structure Head where
  offset : Nat
  place : Place
deriving DecidableEq, Repr, Inhabited

namespace Head

def start : Head := ⟨0, .origin⟩

/-- The head behind `c`, when `next` is the character that follows it. -/
def step (h : Head) (c : Char) (next : Option Char) : Head :=
  ⟨h.offset + c.utf8Size, h.place.step c next⟩

def past (h : Head) : List Char → Option Char → Head
  | [], _ => h
  | [c], next => h.step c next
  | c :: d :: cs, next => (h.step c (some d)).past (d :: cs) next

end Head

structure LexError where
  kind : LexErrorKind
  span : Span
  place : Place
deriving DecidableEq, Repr

namespace LexErrorKind

/-- The bytes an error points at: the character itself, the quote or the comment's opening. -/
def width : LexErrorKind → Nat
  | unexpectedChar c => c.utf8Size
  | unterminatedString => 1
  | unterminatedComment => 2

def summary : LexErrorKind → String
  | unexpectedChar _ => "unexpected character"
  | unterminatedString => "unterminated string literal"
  | unterminatedComment => "unterminated block comment"

end LexErrorKind

def LexError.message (e : LexError) : String :=
  match e.kind with
  | .unexpectedChar c => e.kind.summary ++ " '" ++ c.toString ++ "'"
  | kind => kind.summary

/-- What stands between two tokens. A comment in a line ends with the line; a block comment keeps
the head of its opening. -/
inductive Gap where
  | blank
  | line
  | block (opening : Head)

/-- What is left behind a gap. `unclosed` is the opening of a block comment that never ends. -/
structure Skipped where
  head : Head
  rest : List Char
  unclosed : Option Head

def skip : Gap → Head → List Char → Skipped
  | .blank, h, [] => ⟨h, [], none⟩
  | .blank, h, '/' :: '/' :: cs =>
    skip .line ((h.step '/' (some '/')).step '/' cs.head?) cs
  | .blank, h, '/' :: '*' :: cs =>
    skip (.block h) ((h.step '/' (some '*')).step '*' cs.head?) cs
  | .blank, h, c :: cs =>
    if isBlank c then skip .blank (h.step c cs.head?) cs else ⟨h, c :: cs, none⟩
  | .line, h, [] => ⟨h, [], none⟩
  | .line, h, c :: cs =>
    skip (if c = '\n' ∨ c = '\r' then .blank else .line) (h.step c cs.head?) cs
  | .block opening, h, [] => ⟨h, [], some opening⟩
  | .block _, h, '*' :: '/' :: cs =>
    skip .blank ((h.step '*' (some '/')).step '/' cs.head?) cs
  | .block opening, h, c :: cs => skip (.block opening) (h.step c cs.head?) cs

theorem length_rest_skip (gap : Gap) (h : Head) (cs : List Char) :
    (skip gap h cs).rest.length ≤ cs.length := by
  fun_induction skip gap h cs <;> simp_all <;> omega

/-- A source on its way through the scanner. Spans count from `base`; `ended` is set once the
stream of tokens is over. -/
structure Scanner where
  base : Nat
  head : Head
  rest : List Char
  ended : Bool := false

namespace Scanner

def ofText (text : List Char) (base : Nat) : Scanner :=
  ⟨base, .start, text, false⟩

/-- The next token, and the scanner behind it. At the end of the text it is `endOfInput`, as often
as asked. An unexpected character is not passed; an open string or comment is passed to the end of
the text. -/
def next (s : Scanner) : Except LexError Token × Scanner :=
  let gap := skip .blank s.head s.rest
  let fail (kind : LexErrorKind) (h : Head) : Except LexError Token :=
    .error ⟨kind, ⟨s.base + h.offset, s.base + h.offset + kind.width⟩, h.place⟩
  let here : Scanner := { s with head := gap.head, rest := gap.rest }
  match gap.unclosed with
  | some opening => (fail .unterminatedComment opening, here)
  | none =>
    match gap.rest with
    | [] =>
      let at' := s.base + gap.head.offset
      (.ok ⟨.endOfInput, "", ⟨at', at'⟩, gap.head.place, gap.head.place⟩, here)
    | c :: cs =>
      match Lexeme.read c cs with
      | .ok l =>
        let stop := gap.head.past l.taken l.rest.head?
        (.ok ⟨l.kind, String.ofList l.text, ⟨s.base + gap.head.offset, s.base + stop.offset⟩,
            gap.head.place, stop.place⟩,
          { s with head := stop, rest := l.rest })
      | .error .unterminatedString =>
        (fail .unterminatedString gap.head,
          { s with head := gap.head.past (c :: cs) none, rest := [] })
      | .error kind => (fail kind gap.head, here)

theorem length_rest_next {s s' : Scanner} {t : Token} (found : s.next = (.ok t, s'))
    (more : t.kind ≠ .endOfInput) : s'.rest.length < s.rest.length := by
  have passed := length_rest_skip .blank s.head s.rest
  unfold next at found
  dsimp only at found
  split at found
  · cases found
  · split at found
    · cases found
      exact absurd rfl more
    · rename_i c cs hr
      split at found
      · rename_i l hl
        cases found
        have shorter := Lexeme.length_rest_read hl
        simp only [hr, List.length_cons] at passed
        simp only
        omega
      · cases found
      · cases found

def tokens (s : Scanner) : Except LexError (List Token) :=
  match _ : s.next with
  | (.error e, _) => .error e
  | (.ok t, s') =>
    if _ : t.kind = .endOfInput then .ok [t]
    else (tokens s').map (t :: ·)
termination_by s.rest.length
decreasing_by exact length_rest_next ‹_› ‹_›

/-- One step of the stream of tokens, which is over after `endOfInput` or an error. -/
def pull (s : Scanner) : Option (Except LexError Token) × Scanner :=
  if s.ended then (none, s)
  else
    match s.next with
    | (.ok t, s') => (some (.ok t), { s' with ended := decide (t.kind = .endOfInput) })
    | (.error e, s') => (some (.error e), { s' with ended := true })

end Scanner

def scan (source : String) (base : Nat) : Except LexError (List Token) :=
  (Scanner.ofText source.toList base).tokens

end ScriptKit
