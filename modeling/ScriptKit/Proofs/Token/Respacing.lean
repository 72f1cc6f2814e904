import ScriptKit.Proofs.Token.Blanks
import ScriptKit.Proofs.Token.Words
import ScriptKit.Proofs.Tree.Elsewhere

/-! A source with nothing but its tokens and a single blank between any two of them.

Each token is the longest piece in front of a blank, so it is found again. What the parser makes of
tokens depends on their words alone, but for the offsets and places that it passes on. -/

namespace ScriptKit

/-- What a source has at its tokens, with a blank in between. -/
def respaced (source : String) (base : Nat) (ts : List Token) : String :=
  " ".intercalate ((ts.filter fun t => t.kind ≠ .endOfInput).map fun t =>
    slice source ⟨t.span.start - base, t.span.stop - base⟩)

namespace Stretch

def isToken (s : Stretch) : Bool :=
  s.word?.isSome

def space : Stretch := ⟨.blank, [' ']⟩

end Stretch

section Spacing

variable {source : String} {base : Nat} {before last cs : List Char} {cut : List Stretch}

theorem Cuts.spelled (cuts : Cuts last cs cut) : ∀ s ∈ cut, s.piece.Spelled s.chars := by
  induction cuts with
  | nil => exact List.forall_mem_nil _
  | cons longest _ _ ih => exact List.forall_mem_cons.mpr ⟨longest.spelled, ih⟩

theorem Stretch.exists_token {s : Stretch} (token : s.isToken = true) :
    ∃ kind text, s.piece = .token kind text := by
  obtain ⟨piece, chars⟩ := s
  cases piece with
  | token kind text => exact ⟨kind, text, rfl⟩
  | _ => cases token

/-- Tokens with blanks between them are cut where the blanks are. -/
theorem cuts_spaced :
    (tokens : List Stretch) → (∀ s ∈ tokens, s.isToken = true ∧ s.piece.Spelled s.chars) →
    Cuts [] (joined (tokens.intersperse .space)) (tokens.intersperse .space)
  | [], _ => .nil
  | [s], each => by
    obtain ⟨⟨token, spelled⟩, -⟩ := List.forall_mem_cons.mp each
    obtain ⟨kind, text, same⟩ := s.exists_token token
    have whole : s.piece.IsWhole := by rw [same]; trivial
    exact .cons (Piece.longest_of_all spelled) whole .nil
  | s :: t :: tokens, each => by
    obtain ⟨⟨token, spelled⟩, rest⟩ := List.forall_mem_cons.mp each
    obtain ⟨kind, text, same⟩ := s.exists_token token
    have whole : s.piece.IsWhole := by rw [same]; trivial
    have longest : s.piece.Longest s.chars (' ' :: joined ((t :: tokens).intersperse .space)) :=
      (Piece.longest_of_all spelled).before_blank whole rfl (by rw [same]; rintro ⟨⟩)
    exact .cons longest whole
      (.cons (Piece.longest_blank rfl) trivial (cuts_spaced (t :: tokens) rest))

theorem filter_spaced : (tokens : List Stretch) → (∀ s ∈ tokens, s.isToken = true) →
    (tokens.intersperse .space).filter Stretch.isToken = tokens
  | [], _ => rfl
  | [s], each => by simpa using each
  | s :: t :: tokens, each => by
    obtain ⟨token, rest⟩ := List.forall_mem_cons.mp each
    rw [List.intersperse_cons_cons, List.filter_cons_of_pos token,
      List.filter_cons_of_neg (by decide), filter_spaced (t :: tokens) rest]

theorem filterMap_word?_filter (cut : List Stretch) :
    (cut.filter Stretch.isToken).filterMap Stretch.word? = cut.filterMap Stretch.word? := by
  rw [List.filterMap_filter]
  congr 1
  funext s
  cases here : s.word? <;> simp [Stretch.isToken, here]

theorem joined_spaced : (tokens : List Stretch) →
    joined (tokens.intersperse .space) = [' '].intercalate (tokens.map Stretch.chars)
  | [] => rfl
  | [s] => rfl
  | s :: t :: tokens => by
    have later := joined_spaced (t :: tokens)
    rw [List.map_cons] at later
    rw [List.intersperse_cons_cons, List.map_cons, List.map_cons, List.intercalate_cons_cons,
      ← later]
    simp [joined, Stretch.space]

theorem map_word_tokensFrom (base : Nat) (h : Head) (cut : List Stretch) :
    (tokensFrom base h cut).map Token.word = cut.filterMap Stretch.word? ++
      [(.endOfInput, "")] := by
  induction cut generalizing h with
  | nil => rfl
  | cons s cut ih =>
    obtain ⟨piece, chars⟩ := s
    rw [tokensFrom, List.map_append, ih]
    cases piece <;> rfl

/-- The slices at the tokens are the stretches of the cut that are tokens. -/
theorem slices_tokensFrom (cuts : Cuts [] cs cut) (text : source.toList = before ++ cs) :
    ((tokensFrom base (Head.start.past before cs.head?) cut).filter fun t =>
      t.kind ≠ .endOfInput).map
        (fun t => slice source ⟨t.span.start - base, t.span.stop - base⟩) =
      (cut.filter Stretch.isToken).map fun s => String.ofList s.chars := by
  induction cuts generalizing before with
  | nil => rfl
  | @cons p taken rest cut longest whole more ih =>
    have later := @ih (before ++ taken) (by rw [text, List.append_assoc])
    have split := tokensFrom_cons base before ⟨p, taken⟩ more
    dsimp only at split
    rw [split, List.filter_append, List.map_append, later]
    cases p with
    | openString | openComment => cases whole
    | blank | comment => rfl
    | token kind content =>
      obtain ⟨t, found, sits⟩ := token?_sits base longest text
      have more : t.kind ≠ .endOfInput := by
        intro ended
        have writes := sits.writes
        rw [ended] at writes
        exact writes
      have here : slice source ⟨t.span.start - base, t.span.stop - base⟩ = String.ofList taken := by
        rw [← sits.slice, String.ofList_toList]
      rw [found, List.filter_cons_of_pos (by rfl)]
      simp [more, here]

theorem respaced_tokensFrom (base : Nat) (cuts : Cuts [] source.toList cut) :
    respaced source base (tokensFrom base .start cut) =
      " ".intercalate ((cut.filter Stretch.isToken).map fun s => String.ofList s.chars) := by
  have text : source.toList = [] ++ source.toList := rfl
  exact congrArg " ".intercalate (slices_tokensFrom cuts text)

theorem exists_respaced {ts : List Token} (scanned : scan source base = .ok ts) (base' : Nat) :
    ∃ ts', scan (respaced source base ts) base' = .ok ts' ∧ ts'.map Token.word = ts.map Token.word ∧
      respaced (respaced source base ts) base' ts' = respaced source base ts := by
  obtain ⟨cut, cuts, rfl⟩ := (scan_eq_ok_iff source base ts).mp scanned
  have tokens : ∀ s ∈ cut.filter Stretch.isToken, s.isToken = true :=
    fun s member => (List.mem_filter.mp member).2
  have again : Cuts [] (respaced source base (tokensFrom base .start cut)).toList
      ((cut.filter Stretch.isToken).intersperse .space) := by
    have spaced := cuts_spaced (cut.filter Stretch.isToken) fun s member =>
      ⟨tokens s member, cuts.spelled s (List.mem_filter.mp member).1⟩
    rw [joined_spaced] at spaced
    rw [respaced_tokensFrom base cuts, String.toList_intercalate, List.map_map]
    simpa [Function.comp_def] using spaced
  refine ⟨_, (scan_eq_ok_iff _ base' _).mpr ⟨_, again, rfl⟩, ?_, ?_⟩
  · rw [map_word_tokensFrom, map_word_tokensFrom, ← filterMap_word?_filter, filter_spaced _ tokens,
      filterMap_word?_filter]
  · rw [respaced_tokensFrom base' again, filter_spaced _ tokens, respaced_tokensFrom base cuts]

end Spacing

section Parsing

def Relocation.unplaced : Relocation :=
  .flat fun _ i => i

/-- What the parser makes of tokens, but for offsets and places: a tree or an error, and the
catalogue. -/
def parsedAnywhere (tokens : List Token) (ast : Ast) : Except ParseError Block × Ast :=
  (((parseProgram tokens ast).1.map (Block.move .unplaced)).mapError
    (ParseError.move .unplaced fun _ => .origin),
    ({} : Ast).extend .unplaced (parseProgram tokens ast).2)

/-- The parser sees nothing of the tokens but their words. -/
theorem parsedAnywhere_of_words {tokens tokens' us us' : List Token} {last last' : Token}
    (ended : Parser.Ended tokens us last) (ended' : Parser.Ended tokens' us' last')
    (same : tokens'.map Token.word = tokens.map Token.word) (ast : Ast) :
    parsedAnywhere tokens' ast = parsedAnywhere tokens ast := by
  have numbers : ∀ family i, Relocation.unplaced.number family i = ({} : Ast).count family + i := by
    intro family i
    cases family <;> exact (Nat.zero_add i).symm
  have shown : Token.move .unplaced (fun _ => .origin) =
      (fun w : Written.Word => Token.mk w.1 w.2 ⟨0, 0⟩ .origin .origin) ∘ Token.word := rfl
  have moved := parseProgram_moved ended {} .unplaced numbers (fun _ => .origin) ast
  have moved' := parseProgram_moved ended' {} .unplaced numbers (fun _ => .origin) ast
  rw [shown, ← List.map_map] at moved moved'
  rw [same] at moved'
  exact moved'.symm.trans moved

theorem ended_of_scan {source : String} {base : Nat} {ts : List Token}
    (scanned : scan source base = .ok ts) :
    ∃ us last, Parser.Ended ts us last := by
  obtain ⟨cut, cuts, rfl⟩ := (scan_eq_ok_iff source base ts).mp scanned
  obtain ⟨us, last, same, -, ended⟩ := tokensFrom_words base .start cut
  exact ⟨us, last, same, ended⟩

/-- A source that scans gives the same words with nothing but single blanks between its tokens, and
so does any other source that comes to the same text. The parser does with them the same, and there
is no more to be changed then. -/
theorem scan_respaced {source : String} {base : Nat} {ts : List Token}
    (scanned : scan source base = .ok ts) (base' : Nat) :
    (∃ ts', scan (respaced source base ts) base' = .ok ts' ∧
      ts'.map Token.word = ts.map Token.word ∧
      (∀ ast, parsedAnywhere ts' ast = parsedAnywhere ts ast) ∧
      respaced (respaced source base ts) base' ts' = respaced source base ts) ∧
    ∀ source' us, scan source' base' = .ok us →
    respaced source' base' us = respaced source base ts →
      us.map Token.word = ts.map Token.word ∧
      ∀ ast, parsedAnywhere us ast = parsedAnywhere ts ast := by
  obtain ⟨_, _, ended⟩ := ended_of_scan scanned
  obtain ⟨ts', found, words, again⟩ := exists_respaced scanned base'
  obtain ⟨_, _, ended'⟩ := ended_of_scan found
  refine ⟨⟨ts', found, words, parsedAnywhere_of_words ended ended' words, again⟩, ?_⟩
  intro source' us scanned' same
  obtain ⟨_, _, last⟩ := ended_of_scan scanned'
  obtain ⟨us', found', words', -⟩ := exists_respaced scanned' base'
  rw [same, found] at found'
  cases found'
  have alike := words'.symm.trans words
  exact ⟨alike, parsedAnywhere_of_words ended last alike⟩

/-- Tokens without a blank between them, blanks and marks of comments in strings, and comments. -/
theorem scan_respaced_dense :
    ∃ ts, scan "/**/f('// ',9a)!=\"=\n\"//\r<=fn1" 5 = .ok ts ∧
      respaced "/**/f('// ',9a)!=\"=\n\"//\r<=fn1" 5 ts = "f ( '// ' , 9 a ) != \"=\n\" <= fn1" ∧
      ∃ ts', scan (respaced "/**/f('// ',9a)!=\"=\n\"//\r<=fn1" 5 ts) 0 = .ok ts' ∧
        ts'.map Token.word = ts.map Token.word := by
  have scans : (scan "/**/f('// ',9a)!=\"=\n\"//\r<=fn1" 5).toOption.map
      (respaced "/**/f('// ',9a)!=\"=\n\"//\r<=fn1" 5) =
        some "f ( '// ' , 9 a ) != \"=\n\" <= fn1" := by
    decide +kernel
  cases scanned : scan "/**/f('// ',9a)!=\"=\n\"//\r<=fn1" 5 with
  | error e =>
    rw [scanned] at scans
    cases scans
  | ok ts =>
    rw [scanned] at scans
    obtain ⟨⟨ts', found, words, -⟩, -⟩ := scan_respaced scanned 0
    exact ⟨ts, rfl, Option.some.inj scans, ts', found, words⟩

end Parsing

end ScriptKit
