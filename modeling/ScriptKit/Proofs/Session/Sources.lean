import Mathlib.Data.List.Forall2
import ScriptKit.Proofs.Token.Elsewhere
import ScriptKit.Proofs.Tree.Elsewhere
import ScriptKit.Session

/-! What a source gives, and where it is read.

A source is read alike at all times. Only the numbers of its nodes and its offsets tell what was
read before. -/

namespace ScriptKit

def reading (source : String) : Except Error Block × Ast :=
  match scan source 0 with
  | .error e => (.error (.lex e), {})
  | .ok tokens => ((parseProgram tokens {}).1.mapError .parse, (parseProgram tokens {}).2)

theorem reading_eq_ok {source : String} {b : Block} {ast : Ast} :
    reading source = (.ok b, ast) ↔
      ∃ tokens, scan source 0 = .ok tokens ∧ parseProgram tokens {} = (.ok b, ast) := by
  unfold reading
  cases scan source 0 with
  | error e => simp
  | ok tokens =>
    simp only [Except.ok.injEq, exists_eq_left']
    generalize parseProgram tokens {} = parsed
    obtain ⟨_ | _, _⟩ := parsed <;> simp [Except.mapError]

def Setting.later (shift : Nat) : Setting :=
  ⟨0, shift, shift, .nothing, True, fun _ => rfl⟩

theorem Setting.beside_later (source : String) (shift : Nat) :
    (later shift).Beside (.ofText source.toList 0) (.ofText source.toList shift) :=
  ⟨rfl, rfl, ⟨by simp [later, Scanner.ofText], fun _ => rfl⟩,
    by simp [later, Scanner.ofText, Behind.text]⟩

theorem Setting.Tokens.eq_move {S : Setting} {t t' : Token} (same : S.Tokens t t')
    (places : S.places) {r : Relocation} (shifts : ∀ x, r.offset x = S.shift + x) :
    t' = t.move r id := by
  have ⟨first, last⟩ := same.places places
  calc
    t' = ⟨t'.kind, t'.text, t'.span, t'.first, t'.last⟩ := rfl
    _ = t.move r id := by
      rw [same.kind, same.text, same.span, first, last]
      simp only [Token.move, Span.move, shifts, id]

theorem Setting.map_tokens {S : Setting} {us us' : List Token} (each : List.Forall₂ S.Tokens us us')
    {f g : Token → Token} (same : ∀ {t t'}, S.Tokens t t' → g t' = f t) : us'.map g = us.map f := by
  induction each with
  | nil => rfl
  | cons first _ ih => rw [List.map_cons, List.map_cons, same first, ih]

theorem Setting.Errors.eq_move {S : Setting} {e e' : LexError} (same : S.Errors e e')
    (places : S.places) {r : Relocation} (shifts : ∀ x, r.offset x = S.shift + x) :
    e' = e.move r := by
  calc
    e' = ⟨e'.kind, e'.span, e'.place⟩ := rfl
    _ = e.move r := by
      rw [same.kind, same.span, same.place places]
      simp only [LexError.move, Span.move, shifts]

theorem scan_ended {source : String} {base : Nat} {tokens : List Token}
    (scanned : scan source base = .ok tokens) :
    ∃ us last, Parser.Ended tokens us last ∧ ∀ t ∈ us, t.kind ≠ .endOfInput := by
  let S : Setting := ⟨base, base, 0, .nothing, True, fun _ => rfl⟩
  have beside : S.Beside (.ofText source.toList base) (.ofText source.toList base) :=
    ⟨rfl, rfl, ⟨by simp [S], fun _ => rfl⟩, by simp [S, Behind.text]⟩
  obtain ⟨us, last, -, whole, ended, only, -⟩ := beside.tokens_ok scanned
  exact ⟨us, last, ⟨whole, ended⟩, only⟩

theorem scan_elsewhere (source : String) (base : Nat) (r : Relocation)
    (shifts : ∀ x, r.offset x = base + x) :
    scan source base =
      ((scan source 0).map (List.map (Token.move r id))).mapError (LexError.move r) := by
  have beside := Setting.beside_later source base
  cases scanned : scan source 0 with
  | error e =>
    obtain ⟨e', failed, same⟩ := beside.tokens_error rfl scanned
    rw [scan, failed, same.eq_move trivial shifts]
    rfl
  | ok tokens =>
    obtain ⟨us, last, us', rfl, -, -, each, follows⟩ := beside.tokens_ok scanned
    cases follows with
    | more semi j _ behind => cases behind
    | nothing last' _ same scanned' =>
      have all : us'.map id = us.map (Token.move r id) :=
        Setting.map_tokens each fun same => same.eq_move trivial shifts
      rw [List.map_id] at all
      rw [scan, scanned', same.eq_move trivial shifts, all]
      simp [Except.map, Except.mapError]

/-- A source read behind what a catalogue holds. -/
theorem parseSource_eq (source : String) (ast : Ast) :
    let r := Relocation.behind ast ast.sourceEnd
    parseSource source ast =
      (((reading source).1.map (Block.move r)).mapError (Error.move r),
        (ast.reserve (byteLength source.toList)).extend r (reading source).2) := by
  intro r
  have scanned := scan_elsewhere source ast.sourceEnd r fun _ => rfl
  unfold parseSource reading
  dsimp only
  rw [scanned]
  cases alone : scan source 0 with
  | error e =>
    simp only [Except.map, Except.mapError, Ast.extend_empty]
    rfl
  | ok tokens =>
    obtain ⟨us, last, ended, -⟩ := scan_ended alone
    have moved := parseProgram_moved ended (ast.reserve (byteLength source.toList)) r
      (fun family i => by cases family <;> rfl) id {}
    rw [Ast.extend_empty] at moved
    simp only [Except.map, Except.mapError, moved]
    cases (parseProgram tokens {}).1 <;> rfl

end ScriptKit
