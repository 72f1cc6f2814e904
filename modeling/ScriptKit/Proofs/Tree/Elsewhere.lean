import ScriptKit.Proofs.Tree.Parallel

/-! Reading the same tokens with more steps, into another catalogue, and with more tokens behind
them. -/

namespace ScriptKit

namespace Parser

/-- `endOfInput` is the last token, and no other one is. -/
structure Ended (tokens us : List Token) (last : Token) : Prop where
  whole : tokens = us ++ [last]
  kind : last.kind = .endOfInput

namespace Course

/-- The second run goes on with `tail` and is the same otherwise. -/
def same (last : Token) (ended : last.kind = .endOfInput) (tail : List Token)
    (continued : tail = [last] ∨ ∃ t rest, tail = t :: rest ∧ t.kind = .semicolon) : Course where
  base := {}
  relocation := .same
  numbers := by
    intro family i
    cases family <;> exact (Nat.zero_add i).symm
  place := id
  last := last
  ended := ended
  tail := tail
  continued := continued

def moved (base : Ast) (r : Relocation)
    (numbers : ∀ family i, r.number family i = base.count family + i) (place : Place → Place)
    (last : Token) (ended : last.kind = .endOfInput) : Course :=
  ⟨base, r, numbers, place, last, ended, _, .inl rfl⟩

variable {c : Course} {α : Type} {move : α → α} {m m' : ParseM α}

/-- With steps enough, and if both runs end with the same token, they have the same outcome. -/
theorem Follows.outcome (follows : c.Follows move m m') (exact : c.Exact) (us : List Token)
    (ast : Ast) (finishes : Finishes m (c.here us ast)) :
    ∃ vs ast', (∃ a, m.run (c.here us ast) = .ok a (c.here vs ast') ∧
        m'.run (c.there us ast) = .ok (move a) (c.there vs ast')) ∨
      ∃ e, m.run (c.here us ast) = .error e (c.here vs ast') ∧
        m'.run (c.there us ast) = .error (e.move c.relocation c.place) (c.there vs ast') := by
  have agrees := follows us ast
  unfold Finishes at finishes
  generalize m.run (c.here us ast) = r at agrees finishes
  generalize m'.run (c.there us ast) = r' at agrees
  cases agrees with
  | ok beside =>
    obtain ⟨vs, ast', rfl, rfl, rfl⟩ := beside
    exact ⟨vs, ast', .inl ⟨_, rfl, rfl⟩⟩
  | error vs ast' => exact ⟨vs, ast', .inr ⟨_, rfl, rfl⟩⟩
  | lost reason => exact absurd (reason exact) (finishes _ _ rfl)

end Course

theorem program_finishes {n : Nat} {s : ParseState} (steps : 16 * s.tokens.length + 13 ≤ n) :
    Finishes (program n) s := by
  unfold program
  apply finishes_peek
  refine ((finishing n).statements s _ steps).bind fun ss s' _ => ?_
  exact finishes_peek (finishes_modifyGet _)

theorem program_follows (c : Course) (exact : c.Exact) {n m : Nat} (le : n ≤ m) :
    c.Follows (Block.move c.relocation) (program n) (program m) := by
  have peeked : c.Follows c.token peek peek := by
    intro us ast
    cases us with
    | nil =>
      have tail : current c.tail = c.token c.last := by rw [show c.tail = _ from exact]; rfl
      exact .ok ⟨[], ast, rfl, tail, rfl⟩
    | cons t us => exact .ok ⟨t :: us, ast, rfl, rfl, rfl⟩
  intro us ast
  exact peeked.bind fun first us ast =>
    ((c.parallel le).statements _ (.inl exact)).bind fun ss us ast =>
    peeked.bind fun last us ast => Course.follows_newBlock (by simp) rfl us ast

end Parser

namespace Parser

variable {tokens us : List Token} {last : Token}

theorem there_same (ended : last.kind = .endOfInput) {tail : List Token}
    (continued : tail = [last] ∨ ∃ t rest, tail = t :: rest ∧ t.kind = .semicolon) (us : List Token)
    (ast : Ast) : (Course.same last ended tail continued).there us ast = ⟨us ++ tail, ast⟩ := by
  have tokens : Token.move .same id = id := rfl
  simp only [Course.there, Course.token, Course.same, Ast.extend_same, tokens, List.map_id]

/-- More steps than are granted make no difference. -/
theorem run_more_steps {α : Type} {m m' : ParseM α} {ast : Ast} (ended : Ended tokens us last)
    (follows : ∀ c : Course, c.Exact → c.relocation = .same → c.Follows id m m')
    (finishes : Finishes m ⟨tokens, ast⟩) : m'.run ⟨tokens, ast⟩ = m.run ⟨tokens, ast⟩ := by
  let c := Course.same last ended.kind [last] (.inl rfl)
  have start : c.there us ast = ⟨tokens, ast⟩ := by rw [there_same, ended.whole]
  obtain ⟨vs, ast', outcome⟩ := (follows c rfl rfl).outcome rfl us ast
    (by rw [ended.whole] at finishes; exact finishes)
  have stop : c.there vs ast' = c.here vs ast' := there_same ended.kind _ vs ast'
  rw [start, stop] at outcome
  rw [show (⟨tokens, ast⟩ : ParseState) = c.here us ast by rw [ended.whole]; rfl] at outcome ⊢
  rcases outcome with ⟨a, done, again⟩ | ⟨e, failed, again⟩
  · rw [done, again]
    rfl
  · rw [failed, again]
    rfl

theorem program_more_steps (ended : Ended tokens us last) {n : Nat} (le : stepsFor tokens ≤ n)
    (ast : Ast) :
    (program n).run ⟨tokens, ast⟩ = (program (stepsFor tokens)).run ⟨tokens, ast⟩ := by
  refine run_more_steps ended (fun c exact same => ?_)
    (program_finishes (by simp only [stepsFor]; omega))
  have moves : Block.move c.relocation = id := by
    rw [same]
    exact funext Block.move_same
  exact moves ▸ program_follows c exact le

theorem operation_more_steps (ended : Ended tokens us last) (level : Level)
    {n : Nat} (le : stepsFor tokens ≤ n) (ast : Ast) :
    (operation n level).run ⟨tokens, ast⟩ =
      (operation (stepsFor tokens) level).run ⟨tokens, ast⟩ := by
  have granted : 2 * level.height + 2 ≤ 16 := by cases level <;> decide
  have finishes :=
    (finishing (stepsFor tokens)).operation ⟨tokens, ast⟩ level (by simp only [stepsFor]; omega)
  refine run_more_steps ended (fun c exact same => ?_) finishes
  have moves : Expr.move c.relocation = id := by
    rw [same]
    exact funext Expr.move_same
  exact moves ▸ (c.parallel le).operation level

theorem run_first_joined {m j : Nat} {s t u : ParseState} {st : Stmt} {ss : List Stmt}
    (one : (statement m).run s = .ok st t)
    (rest : (statements m .endOfInput).run t =
      (do return ss ++ (← statements j .endOfInput)).run u) :
    (do let first ← statement m
        return first :: (← statements m .endOfInput)).run s =
      (do return st :: ss ++ (← statements j .endOfInput)).run u := by
  simp only [EStateM.run, Bind.bind, EStateM.bind] at one rest ⊢
  rw [one]
  dsimp only
  rw [rest]
  cases statements j .endOfInput u <;> rfl

/-- Statements with a semicolon and more tokens behind them are followed by the statements of
these. -/
theorem statements_joined {n m : Nat} (le : n ≤ m) {s' : ParseState} {semi : Token}
    {rest : List Token} {ast : Ast} {ss : List Stmt} (ended : Ended tokens us last)
    (only : ∀ t ∈ us, t.kind ≠ .endOfInput) (kind : semi.kind = .semicolon)
    (done : (statements n .endOfInput).run ⟨tokens, ast⟩ = .ok ss s') :
    ∃ k ≤ n, (statements m .endOfInput).run ⟨us ++ semi :: rest, ast⟩ =
      (do return ss ++ (← statements (m - k) .endOfInput)).run ⟨rest, s'.ast⟩ := by
  obtain ⟨rfl, isEnd⟩ := ended
  let c := Course.same last isEnd (semi :: rest) (.inr ⟨semi, rest, rfl, kind⟩)
  have nothing : ∀ n ast, (statements (n + 1) .endOfInput).run ⟨[last], ast⟩ =
      .ok [] ⟨[last], ast⟩ := by
    intro n ast
    rw [run_statements_end _ (show (current [last]).kind = _ from isEnd), if_pos rfl]
  induction n generalizing m us ast ss with
  | zero => cases done
  | succ n ih =>
    obtain ⟨m, rfl⟩ : ∃ k, m = k + 1 := ⟨m - 1, by omega⟩
    cases us with
    | nil =>
      rw [List.nil_append, nothing] at done
      cases done
      refine ⟨1, by omega, ?_⟩
      rw [List.nil_append, run_statements_cons, if_pos kind]
      simp
    | cons t vs =>
      have more := only t (by simp)
      rw [List.cons_append, run_statements_cons] at done
      rw [List.cons_append, run_statements_cons]
      by_cases semi' : t.kind = .semicolon
      · rw [if_pos semi'] at done ⊢
        obtain ⟨k, le, joined⟩ :=
          ih (m := m) (by omega) (fun t member => only t (by simp [member])) done
        exact ⟨k + 1, by omega, by rw [joined]; simp⟩
      · rw [if_neg semi', if_neg more, if_neg more] at done ⊢
        simp only [bind_eq_ok] at done
        obtain ⟨first, s₁, one, others, s₂, rest', done⟩ := done
        cases done
        have agrees := (c.parallel (show n ≤ m by omega)).statement (t :: vs) ast
        rw [there_same] at agrees
        change c.Agrees c.Ends ((statement n).run ⟨t :: (vs ++ [last]), ast⟩) _ at agrees
        rw [one] at agrees
        generalize second : (statement m).run ⟨t :: vs ++ semi :: rest, ast⟩ = r' at agrees
        cases agrees with
        | ok ends =>
          rcases ends with ⟨us', ast', rfl, rfl, rfl⟩ | ⟨ast', t', rest'', tail, _, rfl, rfl, rfl⟩
          · have only' : ∀ u ∈ us', u.kind ≠ .endOfInput := by
              obtain ⟨ts, passes, _⟩ := (derived n).statement one
              have whole : t :: vs = ts ++ us' := by
                have whole := passes.tokens
                simp only [Course.here, ← List.cons_append, ← List.append_assoc] at whole
                exact List.append_cancel_right whole
              intro u member
              exact only u (by rw [whole]; simp [member])
            obtain ⟨k, le, joined⟩ := ih (m := m) (by omega) only' rest'
            rw [there_same] at second
            have joined := run_first_joined second joined
            rw [show first.move c.relocation = first from Stmt.move_same first] at joined
            exact ⟨k + 1, by omega, by rw [Nat.add_sub_add_right]; exact joined⟩
          · -- The semicolon was passed with the last statement.
            cases tail
            cases n with
            | zero => cases rest'
            | succ n =>
              cases (nothing n ast').symm.trans rest'
              have nothing' : (statements m .endOfInput).run
                  ⟨rest, c.base.extend c.relocation ast'⟩ =
                  (do return [] ++ (← statements m .endOfInput)).run ⟨rest, ast'⟩ := by
                rw [show c.base.extend c.relocation ast' = ast' from Ast.extend_same ast']
                simp
              have joined := run_first_joined second nothing'
              rw [show first.move c.relocation = first from Stmt.move_same first] at joined
              exact ⟨1, by omega, joined⟩

end Parser

open ScriptKit.Parser

/-- Tokens read at other offsets and into another catalogue give the same outcome, moved. -/
theorem parseProgram_moved {tokens us : List Token} {last : Token} (ended : Ended tokens us last)
    (base : Ast) (r : Relocation) (numbers : ∀ family i, r.number family i = base.count family + i)
    (place : Place → Place) (ast : Ast) :
    parseProgram (tokens.map (Token.move r place)) (base.extend r ast) =
      (((parseProgram tokens ast).1.map (Block.move r)).mapError (ParseError.move r place),
        base.extend r (parseProgram tokens ast).2) := by
  let c := Course.moved base r numbers place last ended.kind
  have follows := program_follows c rfl (Nat.le_refl (stepsFor tokens))
  obtain ⟨vs, ast', outcome⟩ := follows.outcome rfl us ast
    (program_finishes (by simp [Course.here, stepsFor, ended.whole]))
  have start : c.there us ast = ⟨tokens.map (Token.move r place), base.extend r ast⟩ := by
    rw [ended.whole, List.map_append]
    rfl
  have steps : stepsFor (tokens.map (Token.move r place)) = stepsFor tokens := by simp [stepsFor]
  rw [start, show c.here us ast = ⟨tokens, ast⟩ by rw [ended.whole]; rfl] at outcome
  simp only [EStateM.run] at outcome
  simp only [parseProgram, Parser.run, steps]
  rcases outcome with ⟨b, done, again⟩ | ⟨e, failed, again⟩
  · rw [done, again]
    rfl
  · rw [failed, again]
    rfl

end ScriptKit
