import ScriptKit.Proofs.Tree.Elsewhere

/-! Where the cursor of a parser is, all the way through a run.

A run is a sequence of small actions. The cursor moves at one of them only, by one token, and it
does not move off `endOfInput`. So it is on a token at every action, whether the run ends well or
not. -/

namespace ScriptKit.Parser

structure At (tokens : List Token) (i : Nat) (s : ParseState) : Prop where
  inside : i < tokens.length
  rest : s.tokens = tokens.drop i

/-- What a parser does at a time: it looks at the next token or the second one, takes a token,
enters a node, gives its result or fails. -/
inductive Action : {α : Type} → ParseM α → Prop where
  | peek : Action peek
  | peekSecond : Action peekSecond
  | advance : Action advance
  | newExpr (span : Span) (make : Node → Expr) : Action (newExpr span make)
  | newStmt (make : Nat → Stmt) : Action (newStmt make)
  | newBlock (span : Span) (stmts : List Stmt) : Action (newBlock span stmts)
  | newFunc (span : Span) (name : Option String) (params : List String) (body : Body) :
      Action (newFunc span name params body)
  | pure {α : Type} (a : α) : Action (Pure.pure a : ParseM α)
  | throw {α : Type} (e : ParseError) : Action (MonadExcept.throw e : ParseM α)

/-- From this state on, the parser is a sequence of actions, and at each of them the cursor is on a
token. -/
inductive Confined (tokens : List Token) : {α : Type} → ParseM α → ParseState → Prop where
  | action {α : Type} {m : ParseM α} {i : Nat} {s : ParseState} : Action m → At tokens i s →
      Confined tokens m s
  | bind {α β : Type} {m : ParseM α} {k : α → ParseM β} {s : ParseState} : Confined tokens m s →
      (∀ a t, m.run s = .ok a t → Confined tokens (k a) t) → Confined tokens (m >>= k) s

/-- The run ends on a token, and no further back than `i`. -/
def Lands {α : Type} (tokens : List Token) (i : Nat) : EStateM.Result ParseError ParseState α → Prop
  | .ok _ s | .error _ s => ∃ j, i ≤ j ∧ At tokens j s

def Contained {α : Type} (tokens : List Token) (m : ParseM α) : Prop :=
  ∀ i s, At tokens i s → Confined tokens m s

section Moving

variable {α β : Type} {tokens us ts : List Token} {last t : Token} {i : Nat} {s s' : ParseState}
  {m : ParseM α}

theorem At.same (here : At tokens i s) (same : s'.tokens = s.tokens) : At tokens i s' :=
  ⟨here.inside, same.trans here.rest⟩

theorem at_start (ended : Ended tokens us last) (ast : Ast) : At tokens 0 ⟨tokens, ast⟩ := by
  refine ⟨?_, rfl⟩
  rw [ended.whole, List.length_append]
  exact Nat.succ_pos _

/-- When tokens other than `endOfInput` are taken, this one is left behind them. -/
theorem At.passes (ended : Ended tokens us last) (here : At tokens i s) (passes : Passes s ts s') :
    At tokens (i + ts.length) s' := by
  have whole : tokens.drop i = ts ++ s'.tokens := here.rest.symm.trans passes.tokens
  have rest : s'.tokens = tokens.drop (i + ts.length) := by
    rw [← List.drop_drop, whole, List.drop_left]
  refine ⟨Nat.lt_of_not_le fun beyond => ?_, rest⟩
  rw [rest, List.drop_eq_nil_of_le beyond, List.append_nil] at whole
  have final : (tokens.drop i).getLast? = some last := by
    rw [List.getLast?_drop, if_neg (Nat.not_le.mpr here.inside), ended.whole, List.getLast?_concat]
  exact passes.inside last (List.mem_of_getLast? (whole ▸ final)) ended.kind

theorem Action.lands (ended : Ended tokens us last) (action : Action m) (here : At tokens i s) :
    Lands tokens i (m.run s) := by
  cases action with
  | peek | peekSecond | pure | throw => exact ⟨i, Nat.le_refl i, here⟩
  | newExpr | newStmt | newBlock | newFunc => exact ⟨i, Nat.le_refl i, here.same rfl⟩
  | advance =>
    obtain ⟨ts, ast⟩ := s
    cases ts with
    | nil => exact ⟨i, Nat.le_refl i, here⟩
    | cons t ts =>
      by_cases more : t.kind = .endOfInput
      · rw [run_advance_end more]
        exact ⟨i, Nat.le_refl i, here⟩
      · rw [run_advance more]
        have passes : Passes ⟨t :: ts, ast⟩ [t] ⟨ts, ast⟩ :=
          ⟨rfl, List.forall_mem_singleton.mpr more⟩
        exact ⟨i + 1, Nat.le_succ i, here.passes ended passes⟩

theorem Lands.mono {j : Nat} {r : EStateM.Result ParseError ParseState α} (lands : Lands tokens j r)
    (le : i ≤ j) :
    Lands tokens i r := by
  cases r with
  | ok _ _ | error _ _ =>
    obtain ⟨l, further, there⟩ := lands
    exact ⟨l, Nat.le_trans le further, there⟩

theorem Confined.lands (ended : Ended tokens us last) (confined : Confined tokens m s)
    (here : At tokens i s) :
    Lands tokens i (m.run s) := by
  induction confined generalizing i with
  | action action _ => exact action.lands ended here
  | @bind _ _ m k s _ _ first rest =>
    have landed := first here
    have later : ∀ a t, m.run s = .ok a t → Lands tokens i ((k a).run t) := by
      intro a t done
      rw [done] at landed
      obtain ⟨j, further, there⟩ := landed
      exact (rest a t done there).mono further
    cases ran : (m >>= k).run s with
    | ok b u =>
      obtain ⟨a, t, done, ran⟩ := bind_eq_ok.mp ran
      have landed := later a t done
      rw [ran] at landed
      exact landed
    | error e u =>
      rcases bind_eq_error.mp ran with early | ⟨a, t, done, late⟩
      · rw [early] at landed
        exact landed
      · have landed := later a t done
        rw [late] at landed
        exact landed

end Moving

section Actions

variable {α β : Type} {tokens us : List Token} {last : Token} {m : ParseM α}

theorem Action.contained (action : Action m) : Contained tokens m :=
  fun _ _ here => .action action here

variable (ended : Ended tokens us last)

include ended

theorem Contained.bind {k : α → ParseM β} (first : Contained tokens m)
    (rest : ∀ a, Contained tokens (k a)) :
    Contained tokens (m >>= k) := by
  intro i s here
  have confined := first i s here
  have landed := confined.lands ended here
  refine .bind confined fun a t done => ?_
  rw [done] at landed
  obtain ⟨j, _, there⟩ := landed
  exact rest a j t there

theorem contained_unexpected (expected : String) :
    Contained tokens (unexpected expected : ParseM α) :=
  Action.peek.contained.bind ended fun _ => (Action.throw _).contained

theorem contained_unfinished : Contained tokens (unfinished : ParseM α) :=
  Action.peek.contained.bind ended fun _ => (Action.throw _).contained

theorem contained_eat (kind : TokenKind) : Contained tokens (eat kind) := by
  refine Action.peek.contained.bind ended fun t => ?_
  split
  · exact Action.advance.contained.bind ended fun _ => (Action.pure true).contained
  · exact (Action.pure false).contained

theorem contained_expect (kind : TokenKind) (expected : String) :
    Contained tokens (expect kind expected) := by
  refine Action.peek.contained.bind ended fun t => ?_
  split
  · exact Action.advance.contained
  · exact contained_unexpected ended expected

theorem contained_params (n : Nat) : Contained tokens (params n) := by
  induction n with
  | zero => exact contained_unfinished ended
  | succ n ih =>
    refine (contained_expect ended _ _).bind ended fun param =>
      (contained_eat ended _).bind ended fun closed => ?_
    split
    · exact (Action.pure _).contained
    · refine (contained_expect ended _ _).bind ended fun _ => ih.bind ended fun _ => ?_
      exact (Action.pure _).contained

theorem contained_paramList (n : Nat) : Contained tokens (paramList n) := by
  refine (contained_expect ended _ _).bind ended fun _ =>
    (contained_eat ended _).bind ended fun closed => ?_
  split
  · exact (Action.pure _).contained
  · exact contained_params ended n

end Actions

structure AllContained (tokens : List Token) (n : Nat) : Prop where
  statement : Contained tokens (statement n)
  declaration : ∀ isConst, Contained tokens (declaration n isConst)
  statements : ∀ closing, Contained tokens (statements n closing)
  block : Contained tokens (block n)
  operation : ∀ level, Contained tokens (operation n level)
  operationRest : ∀ level lhs, Contained tokens (operationRest n level lhs)
  operand : ∀ level, Contained tokens (operand n level)
  unary : Contained tokens (unary n)
  trailers : ∀ head, Contained tokens (trailers n head)
  items : ∀ closing expected, Contained tokens (items n closing expected)
  primary : Contained tokens (primary n)

section Parsers

variable {tokens us : List Token} {last : Token} (ended : Ended tokens us last) {n : Nat}
  (ih : AllContained tokens n)

include ended ih

theorem statement_contained : Contained tokens (statement (n + 1)) := by
  refine Action.peek.contained.bind ended fun t =>
    Action.peekSecond.contained.bind ended fun second => ?_
  dsimp only
  split
  · exact ih.declaration false
  · exact ih.declaration true
  · refine Action.advance.contained.bind ended fun _ =>
      (contained_expect ended _ _).bind ended fun name =>
      (contained_paramList ended n).bind ended fun params => ih.block.bind ended fun body =>
      (Action.newFunc ..).contained.bind ended fun func => ?_
    exact (Action.newStmt _).contained
  · exact ih.block.bind ended fun body => (Action.newStmt _).contained
  · refine Action.advance.contained.bind ended fun _ =>
      (contained_expect ended _ _).bind ended fun _ =>
      (ih.operation _).bind ended fun value => (contained_eat ended _).bind ended fun _ => ?_
    exact (Action.newStmt _).contained
  · refine (ih.operation _).bind ended fun value => (contained_eat ended _).bind ended fun _ => ?_
    exact (Action.newStmt _).contained

theorem declaration_contained (isConst : Bool) :
    Contained tokens (declaration (n + 1) isConst) := by
  refine Action.advance.contained.bind ended fun keyword =>
    (contained_expect ended _ _).bind ended fun name =>
    (contained_expect ended _ _).bind ended fun _ => (ih.operation _).bind ended fun value =>
    (contained_eat ended _).bind ended fun _ => ?_
  exact (Action.newStmt _).contained

theorem statements_contained (closing : TokenKind) :
    Contained tokens (statements (n + 1) closing) := by
  refine (contained_eat ended _).bind ended fun passed => ?_
  split
  · exact ih.statements closing
  · refine Action.peek.contained.bind ended fun t => ?_
    split
    · exact (Action.pure _).contained
    · split
      · exact contained_unexpected ended _
      · refine ih.statement.bind ended fun first =>
          (ih.statements closing).bind ended fun rest => ?_
        exact (Action.pure _).contained

theorem block_contained : Contained tokens (block (n + 1)) := by
  refine (contained_expect ended _ _).bind ended fun opening =>
    (ih.statements _).bind ended fun stmts =>
    Action.advance.contained.bind ended fun closing => ?_
  exact (Action.newBlock _ _).contained

theorem operation_contained (level : Level) : Contained tokens (operation (n + 1) level) :=
  (ih.operand level).bind ended fun lhs => ih.operationRest level lhs

theorem operationRest_contained (level : Level) (lhs : Expr) :
    Contained tokens (operationRest (n + 1) level lhs) := by
  refine Action.peek.contained.bind ended fun t => ?_
  split
  · exact (Action.pure _).contained
  · refine Action.advance.contained.bind ended fun _ => (ih.operand level).bind ended fun rhs => ?_
    exact (Action.newExpr _ _).contained.bind ended fun whole => ih.operationRest level whole

omit ended in
theorem operand_contained (level : Level) : Contained tokens (operand (n + 1) level) := by
  unfold operand
  split
  · exact ih.operation _
  · exact ih.unary

theorem unary_contained : Contained tokens (unary (n + 1)) := by
  refine Action.peek.contained.bind ended fun t => ?_
  split
  · exact ih.primary.bind ended fun head => ih.trailers head
  · refine Action.advance.contained.bind ended fun sign => ih.unary.bind ended fun operand => ?_
    exact (Action.newExpr _ _).contained

theorem trailers_contained (head : Expr) : Contained tokens (trailers (n + 1) head) := by
  refine (contained_eat ended _).bind ended fun opened => ?_
  split
  · refine (ih.items _ _).bind ended fun r => ?_
    exact (Action.newExpr _ _).contained.bind ended fun whole => ih.trailers whole
  · refine (contained_eat ended _).bind ended fun subscript => ?_
    split
    · refine (ih.operation _).bind ended fun index =>
        (contained_expect ended _ _).bind ended fun close => ?_
      exact (Action.newExpr _ _).contained.bind ended fun whole => ih.trailers whole
    · exact (Action.pure _).contained

theorem items_contained (closing : TokenKind) (expected : String) :
    Contained tokens (items (n + 1) closing expected) := by
  refine Action.peek.contained.bind ended fun t =>
    (contained_eat ended _).bind ended fun closed => ?_
  split
  · exact (Action.pure _).contained
  · refine (ih.operation _).bind ended fun item => Action.peek.contained.bind ended fun t =>
      (contained_eat ended _).bind ended fun closed => ?_
    split
    · exact (Action.pure _).contained
    · refine (contained_eat ended _).bind ended fun comma => ?_
      split
      · exact (ih.items closing expected).bind ended fun r => (Action.pure _).contained
      · exact contained_unexpected ended _

theorem primary_contained : Contained tokens (primary (n + 1)) := by
  refine Action.peek.contained.bind ended fun t => ?_
  split
  · exact Action.advance.contained.bind ended fun _ => (Action.newExpr _ _).contained
  · split
    · refine Action.advance.contained.bind ended fun _ => ?_
      split
      · exact (Action.newExpr _ _).contained
      · exact (Action.throw _).contained
    · exact Action.advance.contained.bind ended fun _ => (Action.newExpr _ _).contained
    · refine Action.advance.contained.bind ended fun _ => (ih.operation _).bind ended fun inner =>
        (contained_expect ended _ _).bind ended fun _ => ?_
      exact (Action.pure _).contained
    · refine Action.advance.contained.bind ended fun _ => (ih.items _ _).bind ended fun r => ?_
      exact (Action.newExpr _ _).contained
    · refine Action.advance.contained.bind ended fun _ =>
        (contained_paramList ended n).bind ended fun params =>
        (contained_expect ended _ _).bind ended fun _ => (ih.operation _).bind ended fun body =>
        (Action.newFunc ..).contained.bind ended fun func => ?_
      exact (Action.newExpr _ _).contained
    · refine Action.advance.contained.bind ended fun _ =>
        (contained_paramList ended n).bind ended fun params =>
        ih.block.bind ended fun body => (Action.newFunc ..).contained.bind ended fun func => ?_
      exact (Action.newExpr _ _).contained
    · exact contained_unexpected ended _

omit ih

theorem allContained (n : Nat) : AllContained tokens n := by
  induction n with
  | zero => constructor <;> intros <;> exact contained_unfinished ended
  | succ n ih =>
    exact ⟨statement_contained ended ih, declaration_contained ended ih,
      statements_contained ended ih, block_contained ended ih, operation_contained ended ih,
      operationRest_contained ended ih, operand_contained ih, unary_contained ended ih,
      trailers_contained ended ih, items_contained ended ih, primary_contained ended ih⟩

theorem program_contained (n : Nat) : Contained tokens (program n) := by
  refine Action.peek.contained.bind ended fun first =>
    ((allContained ended n).statements _).bind ended fun stmts =>
    Action.peek.contained.bind ended fun last => ?_
  exact (Action.newBlock _ _).contained

end Parsers

section Brackets

variable {tokens us : List Token} {last : Token} {i n : Nat} {s s' : ParseState}

theorem Passes.current_eq {t : Token} (passes : Passes s [t] s') : current s.tokens = t := by
  rw [passes.tokens]
  rfl

/-- The span that comes with a list is that of the last token taken, which closes the list. -/
theorem items_closed {closing : TokenKind} {expected : String} {r : List Expr × Span}
    (more : closing ≠ .endOfInput) (done : (items n closing expected).run s = .ok r s') :
    ∃ ts t, Passes s (ts ++ [t]) s' ∧ t.kind = closing ∧ t.span = r.2 := by
  induction n generalizing s s' r with
  | zero => cases done
  | succ n ih =>
    simp only [items, run_peek, bind_eq_ok] at done
    obtain ⟨b, s₁, ate, done⟩ := done
    rcases eat_eq_ok more ate with ⟨rfl, t, kind, first⟩ | ⟨rfl, rfl, _⟩
    · cases done
      exact ⟨[], t, first, kind, by rw [first.current_eq]⟩
    · rw [if_neg Bool.false_ne_true, bind_eq_ok] at done
      obtain ⟨e, s₂, item, done⟩ := done
      rw [run_peek, bind_eq_ok] at done
      obtain ⟨b, s₃, ate, done⟩ := done
      obtain ⟨ts, first, _⟩ := (derived n).operation item
      rcases eat_eq_ok more ate with ⟨rfl, t, kind, second⟩ | ⟨rfl, rfl, _⟩
      · cases done
        exact ⟨ts, t, first.append second, kind, by rw [second.current_eq]⟩
      · simp only [Bool.false_eq_true, if_false, bind_eq_ok] at done
        obtain ⟨b, s₄, ate, done⟩ := done
        rcases eat_eq_ok (by decide) ate with ⟨rfl, comma, _, second⟩ | ⟨rfl, rfl, _⟩
        · simp only [if_true, bind_eq_ok] at done
          obtain ⟨r, s₅, others, done⟩ := done
          obtain ⟨us, t, third, kind, span⟩ := ih others
          cases done
          refine ⟨ts ++ comma :: us, t, ?_, kind, span⟩
          simpa using first.append (second.append third)
        · cases done

theorem At.advanced (ended : Ended tokens us last) (here : At tokens i s) {symbol : Grammar.Symbol}
    (visible : symbol.isVisible = true) (took : ∃ ts, Passes s ts s' ∧ Grammar.Derives symbol ts) :
    ∃ j, At tokens j s' ∧ i < j := by
  obtain ⟨ts, passes, derived⟩ := took
  have some_token := List.length_pos_iff.mpr (derived.ne_nil visible)
  exact ⟨_, here.passes ended passes, by omega⟩

/-- Behind a list the cursor is right behind the bracket that closes it. -/
theorem At.closed (ended : Ended tokens us last) (here : At tokens i s) {ts : List Token}
    {t : Token} (passes : Passes s (ts ++ [t]) s') :
    ∃ j, At tokens j s' ∧ i < j ∧ tokens[j - 1]? = some t := by
  refine ⟨_, here.passes ended passes, by simp, ?_⟩
  have whole : tokens.drop i = ts ++ [t] ++ s'.tokens := here.rest.symm.trans passes.tokens
  have index : i + (ts ++ [t]).length - 1 = i + ts.length := by simp
  rw [index, ← List.getElem?_drop, whole]
  simp

end Brackets

/-- The run does not end for lack of steps, and no further steps change it. -/
structure Settles {α : Type} (p : Nat → ParseM α) (n : Nat) (s : ParseState) : Prop where
  finishes : Finishes (p n) s
  same : ∀ k ≥ n, (p k).run s = (p n).run s

/-- A program and an expression are read to an end, right or wrong, from any tokens that end with
their only `endOfInput`. All the way the cursor is on a token. Wherever it is, a statement or an
expression that is read moves it forward. Behind a list the token in front of the cursor is the
bracket that closes it, and the span that the list comes with is that of this token. -/
theorem parser_in_bounds (ts : List Token) (last : Token) (ast : Ast)
    (final : last.kind = .endOfInput) :
    let tokens := ts ++ [last]
    Settles program (stepsFor tokens) ⟨tokens, ast⟩ ∧
    Settles (fun n => operation n .equality) (stepsFor tokens) ⟨tokens, ast⟩ ∧
    (∀ n, Confined tokens (program n) ⟨tokens, ast⟩ ∧
      Confined tokens (operation n .equality) ⟨tokens, ast⟩) ∧
    ∀ n i s, At tokens i s →
      (∀ st s', (statement n).run s = .ok st s' → ∃ j, At tokens j s' ∧ i < j) ∧
      (∀ e s', (operation n .equality).run s = .ok e s' → ∃ j, At tokens j s' ∧ i < j) ∧
      ∀ closing expected es close s', closing ≠ .endOfInput →
        (items n closing expected).run s = .ok (es, close) s' →
        ∃ j t, At tokens j s' ∧ i < j ∧ tokens[j - 1]? = some t ∧ t.kind = closing ∧
          t.span = close := by
  intro tokens
  have ended : Ended tokens ts last := ⟨rfl, final⟩
  refine ⟨⟨?_, ?_⟩, ⟨?_, ?_⟩, ?_, ?_⟩
  · exact program_finishes (by simp only [stepsFor]; omega)
  · exact fun k enough => program_more_steps ended enough ast
  · exact (finishing _).operation _ _ (by simp only [stepsFor, Level.height]; omega)
  · exact fun k enough => operation_more_steps ended .equality enough ast
  · intro n
    exact ⟨program_contained ended n 0 _ (at_start ended ast),
      (allContained ended n).operation .equality 0 _ (at_start ended ast)⟩
  · intro n i s here
    refine ⟨fun st s' done => ?_, fun e s' done => ?_,
      fun closing expected es close s' more done => ?_⟩
    · exact here.advanced ended rfl ((derived n).statement done)
    · exact here.advanced ended rfl ((derived n).operation done)
    · obtain ⟨us, t, passes, kind, span⟩ := items_closed more done
      obtain ⟨j, there, further, found⟩ := here.closed ended passes
      exact ⟨j, t, there, further, found, kind, span⟩

/-- The list `[1,]`, read from behind its first bracket, and the same list without its last
bracket. -/
theorem parser_in_bounds_list :
    let token kind start : Token := ⟨kind, "1", ⟨start, start + 1⟩, .origin, .origin⟩
    let front := [token .leftBracket 0, token .integer 1, token .comma 2]
    let tokens := front ++ [token .rightBracket 3] ++ [token .endOfInput 4]
    let cut := front ++ [token .endOfInput 3]
    (∃ es s', (items 20 .rightBracket "]").run ⟨tokens.drop 1, {}⟩ = .ok (es, ⟨3, 4⟩) s' ∧
      ∃ j t, At tokens j s' ∧ 1 < j ∧ tokens[j - 1]? = some t ∧ t.kind = .rightBracket ∧
        t.span = ⟨3, 4⟩) ∧
    (parseProgram cut {}).1.toBool = false ∧ Settles program (stepsFor cut) ⟨cut, {}⟩ ∧
    ∀ n, Confined cut (program n) ⟨cut, {}⟩ := by
  intro token front tokens cut
  have closed := parser_in_bounds (front ++ [token .rightBracket 3]) (token .endOfInput 4) {} rfl
  have unclosed := parser_in_bounds front (token .endOfInput 3) {} rfl
  refine ⟨?_, by decide +kernel, unclosed.1, fun n => (unclosed.2.2.1 n).1⟩
  have shown : (match (items 20 .rightBracket "]").run ⟨tokens.drop 1, {}⟩ with
      | .ok r _ => some r.2
      | .error _ _ => none) = some ⟨3, 4⟩ := by decide +kernel
  generalize run : (items 20 .rightBracket "]").run ⟨tokens.drop 1, {}⟩ = result at shown
  cases result with
  | error e s => cases shown
  | ok r s =>
    obtain ⟨es, close⟩ := r
    cases shown
    obtain ⟨-, -, lists⟩ := closed.2.2.2 20 1 ⟨tokens.drop 1, {}⟩ ⟨by decide, rfl⟩
    exact ⟨es, s, rfl, lists .rightBracket "]" es _ s (by decide) run⟩

end ScriptKit.Parser
