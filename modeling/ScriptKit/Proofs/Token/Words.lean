import ScriptKit.Proofs.Token.Cutting
import ScriptKit.Proofs.Tree.Written

/-! Texts that show certain words, whatever is written behind them.

Words that stand side by side may run into one another. So each lemma says which characters may
follow, and texts are joined where the second begins with such a character. -/

namespace ScriptKit
open Written (Word sign)

def Stretch.word? (s : Stretch) : Option Word :=
  match s.piece with
  | .token kind text => some (kind, String.ofList text)
  | _ => none

/-- The scanner finds these words in the text, if it ends there or a character in `next` follows. -/
def Shows (text : List Char) (words : List Word) (next : Char → Prop) : Prop :=
  ∀ rest, (∀ c ∈ rest.head?, next c) → ∃ cut, Cuts rest (text ++ rest) cut ∧
    cut.filterMap Stretch.word? = words

section Joining

variable {text text' : List Char} {words words' : List Word} {next next' : Char → Prop}

theorem shows_nil : Shows [] [] next :=
  fun _ _ => ⟨[], .nil, rfl⟩

theorem Shows.before (shows' : Shows text words next) (fewer : ∀ c, next' c → next c) :
    Shows text words next' :=
  fun rest follows => shows' rest fun c first => fewer c (follows c first)

theorem Shows.append (first : Shows text words next) (second : Shows text' words' next')
    (meet : ∀ rest, (∀ c ∈ rest.head?, next' c) → ∀ c ∈ (text' ++ rest).head?, next c) :
    Shows (text ++ text') (words ++ words') next' := by
  intro rest follows
  obtain ⟨cut', cuts', found'⟩ := second rest follows
  obtain ⟨cut, cuts, found⟩ := first (text' ++ rest) (meet rest follows)
  refine ⟨cut ++ cut', ?_, by rw [List.filterMap_append, found, found']⟩
  rw [List.append_assoc]
  exact cuts.append cuts'

end Joining

section Pieces

variable {c d : Char} {cs body : List Char} {kind : TokenKind}

def Divides (c : Char) : Prop :=
  isLetterOrDigit c = false

abbrev Whatever (_ : Char) : Prop := True

/-- A piece that is the longest one, whatever follows. -/
theorem shows_piece {p : Piece} {taken : List Char} {next : Char → Prop} (whole : p.IsWhole)
    (longest : ∀ rest, (∀ c ∈ rest.head?, next c) → p.Longest taken rest) :
    Shows taken (Stretch.word? ⟨p, taken⟩).toList next := by
  intro rest follows
  refine ⟨[⟨p, taken⟩], .cons (longest rest follows) whole .nil, ?_⟩
  rw [List.filterMap_cons]
  cases Stretch.word? ⟨p, taken⟩ <;> rfl

theorem shows_blank (blank : isBlank c = true) : Shows [c] [] Whatever :=
  shows_piece (p := .blank) trivial fun _ _ => Piece.longest_blank blank

theorem shows_pair (found : TokenKind.operator? c d = some kind) :
    Shows [c, d] [(kind, String.ofList [c, d])] Whatever :=
  shows_piece (p := .token kind [c, d]) trivial fun _ _ => Piece.longest_pair found

/-- A character of its own, unless what follows makes it longer. -/
theorem shows_single (found : TokenKind.punctuation? c = some kind) :
    Shows [c] [(kind, String.ofList [c])]
      fun d => TokenKind.operator? c d = none ∧ (c = '/' → d ≠ '/' ∧ d ≠ '*') :=
  shows_piece (p := .token kind [c]) trivial fun _ follows =>
    Piece.longest_single found (fun d first => (follows d first).1) fun slash d first =>
      (follows d first).2 slash

theorem shows_string (inside : '"' ∉ body) :
    Shows ('"' :: (body ++ ['"'])) [(.text, String.ofList body)] Whatever :=
  shows_piece (p := .token .text body) trivial fun _ _ => Piece.longest_string (.inl rfl) inside

theorem shows_number (digits : ∀ d ∈ c :: cs, d.isDigit = true) :
    Shows (c :: cs) [(.integer, String.ofList (c :: cs))] Divides := by
  refine shows_piece (p := .token .integer (c :: cs)) trivial fun _ follows => ?_
  refine Piece.longest_number digits fun d first => ?_
  have other := follows d first
  simp only [Divides, isLetterOrDigit, Char.isAlphanum, Bool.or_eq_false_iff] at other
  exact other.1.2

theorem shows_word {x : String} (name : isIdentifier x.toList = true) :
    Shows x.toList [((TokenKind.keyword? x).getD .identifier, x)] Divides := by
  cases letters : x.toList with
  | nil =>
    rw [letters] at name
    cases name
  | cons c cs =>
    obtain rfl : x = String.ofList (c :: cs) := by rw [← letters, String.ofList_toList]
    rw [letters] at name
    exact shows_piece (p := .token _ (c :: cs)) trivial fun _ follows =>
      Piece.longest_word name follows

end Pieces

/-- The tokens of a cut are its words in order, and then the end. -/
theorem tokensFrom_words (base : Nat) (h : Head) (cut : List Stretch) :
    ∃ ts last, tokensFrom base h cut = ts ++ [last] ∧
      ts.map Token.word = cut.filterMap Stretch.word? ∧
      last.kind = .endOfInput := by
  induction cut generalizing h with
  | nil => exact ⟨[], _, rfl, rfl, rfl⟩
  | cons s cut ih =>
    obtain ⟨ts, last, rest, spelled, ended⟩ := ih (h.past s.chars (joined cut).head?)
    rw [tokensFrom, rest, List.filterMap_cons]
    obtain ⟨piece, chars⟩ := s
    cases piece with
    | token kind text => exact ⟨_ :: ts, last, rfl, by rw [List.map_cons, spelled]; rfl, ended⟩
    | _ => exact ⟨ts, last, rfl, spelled, ended⟩

theorem Shows.scan {text : String} {words : List Word} {next : Char → Prop}
    (shows' : Shows text.toList words next) (base : Nat) :
    ∃ ts last, scan text base = .ok (ts ++ [last]) ∧ ts.map Token.word = words ∧
      last.kind = .endOfInput := by
  obtain ⟨cut, cuts, found⟩ := shows' [] (by rintro c ⟨⟩)
  rw [List.append_nil] at cuts
  obtain ⟨ts, last, tokens, spelled, ended⟩ := tokensFrom_words base .start cut
  exact ⟨ts, last, (scan_eq_ok_iff text base _).mpr ⟨cut, cuts, tokens.symm⟩, spelled.trans found,
    ended⟩

end ScriptKit
