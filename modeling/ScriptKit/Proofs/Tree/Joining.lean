import ScriptKit.Proofs.Tree.Elsewhere

/-! Two programs in one, with a semicolon between them. -/

namespace ScriptKit

/-- What is left of a token for a parser that makes no error. -/
def Token.blind : Token → Token :=
  Token.move .same fun _ => .origin

namespace Parser

theorem program_eq_ok {n : Nat} {s s' : ParseState} {b : Block}
    (done : (program n).run s = .ok b s') :
    ∃ s₁, (statements n .endOfInput).run s = .ok b.stmts s₁ ∧ s'.ast = s₁.ast.enter (.block b) := by
  simp only [program, run_peek, bind_eq_ok] at done
  obtain ⟨ss, s₁, statements, done⟩ := done
  cases done
  exact ⟨s₁, statements, rfl⟩

theorem program_of_statements {n : Nat} {s s₁ : ParseState} {ss : List Stmt}
    (done : (statements n .endOfInput).run s = .ok ss s₁) :
    ∃ b s', (program n).run s = .ok b s' ∧ b.stmts = ss ∧ s'.ast = s₁.ast.enter (.block b) := by
  simp only [program, run_peek]
  exact ⟨_, _, bind_eq_ok.mpr ⟨ss, s₁, done, rfl⟩, rfl, rfl⟩

end Parser

open ScriptKit.Parser

theorem parseProgram_eq_ok {tokens : List Token} {ast after : Ast} {b : Block} :
    parseProgram tokens ast = (.ok b, after) ↔
      ∃ s, (program (stepsFor tokens)).run ⟨tokens, ast⟩ = .ok b s ∧ s.ast = after := by
  simp only [parseProgram, Parser.run, EStateM.run]
  cases program (stepsFor tokens) ⟨tokens, ast⟩ <;> simp [and_assoc]

/-- Places matter only for errors. -/
theorem parseProgram_blind {tokens us : List Token} {last : Token} (ended : Ended tokens us last)
    {ast after : Ast} {b : Block} : parseProgram (tokens.map Token.blind) ast = (.ok b, after) ↔
      parseProgram tokens ast = (.ok b, after) := by
  have moved :=
    parseProgram_moved ended {} .same
      (fun family i => by cases family <;> simp [Relocation.same, Ast.count])
    (fun _ => .origin) ast
  rw [Ast.extend_same, Ast.extend_same] at moved
  rw [show tokens.map Token.blind = tokens.map (Token.move .same fun _ => .origin) from rfl, moved]
  obtain ⟨r | r, ast'⟩ := parseProgram tokens ast
  · constructor <;> intro wrong <;> cases wrong
  · show (.ok (r.move .same), ast') = ((.ok b, after) : Except ParseError Block × Ast) ↔ _
    rw [Block.move_same]

/-- The statements of both programs, and the functions of both. -/
theorem parseProgram_joined {ts us vs ws : List Token} {last last' : Token}
    (first : Ended ts us last) (only : ∀ t ∈ us, t.kind ≠ .endOfInput) (second : Ended vs ws last')
    {a b : Block} {astA astB : Ast} (parsed : parseProgram ts {} = (.ok a, astA))
    (parsed' : parseProgram vs {} = (.ok b, astB)) (shift : Nat) :
    ∃ r : Relocation, (∀ x, r.offset x = shift + x) ∧
      (∀ i, r.number .func i = astA.funcs.size + i) ∧
      ∀ semi : Token, semi.kind = .semicolon →
      ∃ j astJ, parseProgram (us ++ semi :: vs.map (Token.move r fun _ => .origin)) {} =
        (.ok j, astJ) ∧
        j.stmts = a.stmts ++ b.stmts.map (Stmt.move r) ∧
        astJ.funcs = astA.funcs ++ astB.funcs.map (Func.move r) := by
  obtain ⟨s, done, rfl⟩ := parseProgram_eq_ok.mp parsed
  obtain ⟨s₁, statements, grown⟩ := program_eq_ok done
  have funcs : s.ast.funcs = s₁.ast.funcs := by rw [grown]; rfl
  let r := Relocation.behind s₁.ast shift
  refine ⟨r, fun _ => rfl, fun i => by rw [funcs]; rfl, fun semi kind => ?_⟩
  let rest := vs.map (Token.move r fun _ => .origin)
  have ended : Ended rest (ws.map (Token.move r fun _ => .origin))
      (last'.move r fun _ => .origin) := by
    refine ⟨?_, second.kind⟩
    simp only [rest, second.whole, List.map_append, List.map_cons, List.map_nil]
  have moved := parseProgram_moved second s₁.ast r (fun _ _ => rfl) (fun _ => .origin) {}
  rw [Ast.extend_empty, parsed'] at moved
  obtain ⟨t, done', whole⟩ := parseProgram_eq_ok.mp moved
  -- Steps enough for both, so that what the first one leaves is enough for the second.
  let all := us ++ semi :: rest
  let m := stepsFor ts + stepsFor rest + stepsFor all
  obtain ⟨k, le, joined⟩ :=
    statements_joined (show stepsFor ts ≤ m by omega) first only kind statements
  rw [← program_more_steps ended (show stepsFor rest ≤ m - k by omega)] at done'
  obtain ⟨t₁, statements', grown'⟩ := program_eq_ok done'
  have statementsAll : (Parser.statements m .endOfInput).run ⟨all, {}⟩ =
      .ok (a.stmts ++ (b.move r).stmts) t₁ :=
    joined.trans (Parser.bind_eq_ok.mpr ⟨_, t₁, statements', rfl⟩)
  obtain ⟨j, u, doneAll, stmts, grownAll⟩ := program_of_statements statementsAll
  have endedAll : Ended all (us ++ semi :: ws.map (Token.move r fun _ => .origin))
      (last'.move r fun _ => .origin) :=
    ⟨by simp only [all, ended.whole, List.append_assoc, List.cons_append], second.kind⟩
  rw [program_more_steps endedAll (show stepsFor all ≤ m by omega)] at doneAll
  refine ⟨j, u.ast, parseProgram_eq_ok.mpr ⟨u, doneAll, rfl⟩, by rw [stmts, Block.stmts_move], ?_⟩
  calc
    u.ast.funcs = t₁.ast.funcs := by rw [grownAll]; rfl
    _ = t.ast.funcs := by rw [grown']; rfl
    _ = s.ast.funcs ++ astB.funcs.map (Func.move r) := by rw [whole, funcs]; rfl

end ScriptKit
