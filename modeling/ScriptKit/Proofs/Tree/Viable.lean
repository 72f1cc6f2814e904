import ScriptKit.Proofs.Tree.Joining
import ScriptKit.Proofs.Tree.Lookahead

/-! A parser fails at the first token that no program goes on with.

All parsers look at the next token only, but for the one of statements, which looks at two. The
second one matters behind a name and behind `function`, and neither of these is ever wrong where a
statement may begin. -/

namespace ScriptKit.Parser
open Written (Word sign)

/-- An expression or a statement ends here, and so may all that it is part of. -/
def Closes (kind : TokenKind) : Prop :=
  kind = .rightParen ∨ kind = .rightBracket ∨ kind = .rightBrace ∨ kind = .endOfInput

namespace Closes

variable {kind : TokenKind} (closes : Closes kind)

include closes

theorem plain : Plain kind := by
  rcases closes with rfl | rfl | rfl | rfl <;> exact ⟨by decide, by decide⟩

theorem operator?_eq (level : Level) : level.operator? kind = none := by
  rcases closes with rfl | rfl | rfl | rfl <;> cases level <;> rfl

theorem ne_semicolon : kind ≠ .semicolon := by
  rcases closes with rfl | rfl | rfl | rfl <;> decide

end Closes

theorem run_statement {n : Nat} {t : Token} {s : ParseState} (here : current s.tokens = t) :
    (statement (n + 1)).run s = ((Form.of t.kind (secondKind s.tokens)).parse n t).run s := by
  rw [statement_succ, run_peek, run_peekSecond, here]

section Closed

variable {ws : List Word} {w : Word} {good : Expr → Prop}

theorem reads_unary_closed (unsigned : unaryOp? w.1 = none)
    (reads : Reads primary (w :: ws) Closes good) :
    Reads unary (w :: ws) Closes good :=
  (reads_unary unsigned reads).before fun _ closes => ⟨closes, closes.plain⟩

variable (reads : Reads unary (w :: ws) Closes good)

include reads

theorem reads_operand_closed (level : Level) :
    Reads (fun n => operand n level) (w :: ws) Closes good :=
  (reads_operand reads level).before fun _ closes => ⟨closes, fun l _ => closes.operator?_eq l⟩

theorem reads_operation_closed (level : Level) :
    Reads (fun n => operation n level) (w :: ws) Closes good :=
  (reads_operation (reads_operand_closed reads level)).before fun _ closes =>
    ⟨closes, closes.operator?_eq level⟩

theorem reads_form_closed (t : Token) :
    Reads (fun n => Form.expr.parse n t) (w :: ws) Closes fun st => ∃ id e, st = .expr id e ∧
      good e := by
  refine (reads_operation_closed reads .equality).andThen (fun e found => ?_) fun _ closes => closes
  exact reads_eat_other (fun _ closes => closes.ne_semicolon)
    (reads_newStmt fun id => ⟨id, e, rfl, found⟩)

/-- An expression as a statement, if the next token does not make anything else of it. -/
theorem reads_statement_closed
    (plain : ∀ kind, kind = w.1 ∨ (∃ behind, Closes behind ∧ kind = headKind behind ws) →
      Form.of w.1 kind = .expr) :
    Reads statement (w :: ws) Closes fun st => ∃ id e, st = .expr id e ∧ good e := by
  refine Reads.of_succ fun ts rest ast spelled closes => ?_
  obtain ⟨a, ast', ⟨least, given⟩, found⟩ :=
    reads_form_closed reads (current ts) ts rest ast spelled closes
  obtain ⟨t, us, rfl, rfl, rfl⟩ := List.map_eq_cons_iff.mp spelled
  have form : Form.of t.kind (secondKind (t :: us ++ rest)) = .expr := by
    apply plain
    cases us with
    | cons u us => exact .inr ⟨_, closes, rfl⟩
    | nil =>
      cases rest with
      | nil => exact .inl rfl
      | cons u rest => exact .inr ⟨_, closes, rfl⟩
  refine ⟨a, ast', ⟨least, fun n le => ?_⟩, found⟩
  show (statement (n + 1)).run ⟨t :: us ++ rest, ast⟩ = _
  rw [run_statement (show current (t :: us ++ rest) = t from rfl), form]
  exact given n le

end Closed

section Openings

abbrev nullWords : List Word := [sign .nullWord]

theorem opening_primary : Reads primary nullWords Closes fun _ => True :=
  (reads_literal (v := .null) (by rintro ⟨⟩ ⟨⟩; rfl) fun _ => trivial).before fun _ _ => trivial

theorem opening_unary : Reads unary nullWords Closes fun _ => True :=
  reads_unary_closed rfl opening_primary

theorem opening_operand (level : Level) :
    Reads (fun n => operand n level) nullWords Closes fun _ => True :=
  reads_operand_closed opening_unary level

theorem opening_operation (level : Level) :
    Reads (fun n => operation n level) nullWords Closes fun _ => True :=
  reads_operation_closed opening_unary level

theorem opening_operationRest (level : Level) (lhs : Expr) :
    Reads (fun n => operationRest n level lhs) [] Closes fun _ => True :=
  (reads_operationRest_none trivial).before fun _ closes => closes.operator?_eq level

theorem opening_trailers (head : Expr) : Reads (fun n => trailers n head) [] Closes fun _ => True :=
  (reads_trailers_none trivial).before fun _ closes => closes.plain

theorem opening_statements {closing : TokenKind}
    (closes : closing = .rightBrace ∨ closing = .endOfInput) :
    Reads (fun n => statements n closing) [] (· = closing) fun _ => True :=
  (reads_statements closes [] (List.forall_mem_nil _)).any

theorem opening_statement : Reads statement nullWords Closes fun _ => True :=
  (reads_statement_closed opening_unary fun kind _ => by cases kind <;> rfl).any

theorem opening_block : Reads block (Written.brace []) Anything fun _ => True :=
  reads_block (opening_statements (.inl rfl)) fun _ _ _ => trivial

theorem opening_items {closing : TokenKind} (more : closing ≠ .endOfInput) (expected : String) :
    Reads (fun n => items n closing expected) [sign closing] Anything fun _ => True :=
  Reads.of_succ (reads_peek_any fun _ => reads_eat more (reads_pure trivial))

/-- A function without a name, whatever its keyword's text is. -/
theorem reads_function_word (text : String) :
    Reads primary ((.functionWord, text) :: (Written.params [] ++ Written.brace [])) Closes fun _ =>
      True := by
  refine Reads.of_succ (reads_peek fun t shown => ?_)
  have kind : t.kind = .functionWord := congrArg Prod.fst shown
  simp only [literal?, kind]
  refine reads_advance (show TokenKind.functionWord ≠ .endOfInput by decide) fun _ _ => ?_
  refine (reads_params []).bind (fun _ _ => ?_) fun _ _ => trivial
  refine opening_block.andThen (fun b _ => ?_) fun _ _ => trivial
  exact reads_newFunc_bind fun inside => reads_newExpr fun node => trivial

end Openings

/-- What begins with this may be one thing or another, as the next token shows. -/
def Ambiguous (kind : TokenKind) : Prop := kind = .identifier ∨ kind = .functionWord

/-- It can be completed to an expression that is a statement. -/
theorem ambiguous_reads {w : Word} (ambiguous : Ambiguous w.1) :
    ∃ ws, (Reads unary (w :: ws) Closes fun _ => True) ∧
      Reads statement (w :: ws) Closes fun _ => True := by
  obtain ⟨kind, text⟩ := w
  rcases ambiguous with rfl | rfl
  · have name : Reads primary [(.identifier, text)] Closes fun _ => True :=
      (reads_name text fun _ => trivial).before fun _ _ => trivial
    have reads := reads_unary_closed rfl name
    refine ⟨[], reads, (reads_statement_closed reads ?_).any⟩
    rintro kind (rfl | ⟨_, closes, rfl⟩)
    · rfl
    · rcases closes with rfl | rfl | rfl | rfl <;> rfl
  · have reads := reads_unary_closed rfl (reads_function_word text)
    refine ⟨_, reads, (reads_statement_closed reads ?_).any⟩
    rintro kind (rfl | ⟨_, _, rfl⟩) <;> rfl

/-- Where the rest decides about a statement, it does so right behind the first token. -/
theorem form_differs {t : Token} {us rest rest' : List Token}
    (differ : Form.of t.kind (secondKind (t :: us ++ rest)) ≠
      Form.of t.kind (secondKind (t :: us ++ rest'))) :
    us = [] ∧ Ambiguous t.kind := by
  cases us with
  | cons u us => exact absurd rfl differ
  | nil =>
    refine ⟨rfl, ?_⟩
    unfold Ambiguous
    generalize t.kind = kind at differ ⊢
    cases kind <;> first | exact .inl rfl | exact .inr rfl | exact absurd rfl differ

structure Predicts (n : Nat) : Prop where
  statement : Predictive nullWords Closes statement n
  declaration : ∀ isConst t, t.kind ≠ .endOfInput → On t Closes (fun n => declaration n isConst) n
  statements : ∀ closing, closing = .rightBrace ∨ closing = .endOfInput →
    Predictive [] (· = closing) (fun n => statements n closing) n
  block : Predictive (Written.brace []) Anything block n
  operation : ∀ level, Predictive nullWords Closes (fun n => operation n level) n
  operationRest : ∀ level lhs, Predictive [] Closes (fun n => operationRest n level lhs) n
  operand : ∀ level, Predictive nullWords Closes (fun n => operand n level) n
  unary : Predictive nullWords Closes unary n
  trailers : ∀ head, Predictive [] Closes (fun n => trailers n head) n
  items : ∀ closing expected, closing = .rightParen ∨ closing = .rightBracket →
    Predictive [sign closing] Anything (fun n => items n closing expected) n
  primary : Predictive nullWords Closes primary n

section Leaves

variable {n : Nat} {next : TokenKind → Prop}

theorem predictive_pure {α : Type} (a : α) : Predictive [] next (fun _ => (pure a : ParseM α)) n :=
  predictive_still (fun ast => (a, ast)) fun _ _ => rfl

theorem predictive_newExpr (span : Span) (make : Node → Expr) :
    Predictive [] next (fun _ => newExpr span make) n :=
  predictive_still (fun ast => let e := make ⟨ast.exprs.size, span⟩; (e, ast.enter (.expr e)))
    fun _ _ => rfl

theorem predictive_newStmt (make : Nat → Stmt) : Predictive [] next (fun _ => newStmt make) n :=
  predictive_still (fun ast => let s := make ast.stmts.size; (s, ast.enter (.stmt s)))
    fun _ _ => rfl

theorem predictive_newBlock (span : Span) (ss : List Stmt) :
    Predictive [] next (fun _ => newBlock span ss) n :=
  predictive_still (fun ast => let b := .mk ⟨ast.blocks.size, span⟩ ss; (b, ast.enter (.block b)))
    fun _ _ => rfl

theorem predictive_newFunc (span : Span) (name : Option String) (params : List String)
    (body : Body) :
    Predictive [] next (fun _ => newFunc span name params body) n :=
  predictive_still (fun ast =>
    let f := .mk ⟨ast.funcs.size, span⟩ name params body; (f, ast.enter (.func f)))
    fun _ _ => rfl

/-- A statement's end. -/
theorem predictive_ending (make : Nat → Stmt) :
    Predictive [] Closes (fun _ => eat .semicolon >>= fun _ => newStmt make) n :=
  ⟨reads_eat_other (fun _ closes => closes.ne_semicolon) (reads_newStmt fun _ => trivial), fun t =>
    on_eat [] (by decide) (fun _ => predictive_newStmt make) fun _ =>
      (predictive_newStmt make).on t⟩

theorem predictive_params (n : Nat) :
    Predictive [(.identifier, "x"), sign .rightParen] Anything params n := by
  have reads := (reads_names "x" []).any
  induction n with
  | zero => exact .unfinished reads rfl
  | succ n ih =>
    refine ⟨reads, fun t => On.of_succ (on_expect [sign .rightParen] (by decide) fun x => ?_)⟩
    refine ⟨reads_eat (by decide) (reads_pure trivial),
      fun u => on_eat [] (by decide) (fun _ => ?_) fun _ => ?_⟩
    · exact predictive_pure [x.text]
    · refine on_expect [(.identifier, "x"), sign .rightParen] (by decide) fun _ => ?_
      exact ih.andThen (fun _ => predictive_pure _) fun _ _ => trivial

theorem predictive_paramList (n : Nat) : Predictive (Written.params []) Anything paramList n := by
  refine ⟨(reads_params []).any, fun t => on_expect [sign .rightParen] (by decide) fun _ => ?_⟩
  refine ⟨reads_eat (by decide) (reads_pure trivial), fun u =>
    on_eat [] (by decide) (fun _ => ?_) fun _ => ?_⟩
  · exact predictive_pure []
  · exact (predictive_params n).on u

end Leaves

section Steps

variable {n : Nat} (ih : Predicts n)

include ih

theorem operation_predictive (level : Level) :
    Predictive nullWords Closes (fun n => operation n level) (n + 1) :=
  ⟨opening_operation level, fun t => On.of_succ
    (((ih.operand level).on t).bind [] (fun lhs => ih.operationRest level lhs) fun _ closes =>
      closes)⟩

theorem operationRest_predictive (level : Level) (lhs : Expr) :
    Predictive [] Closes (fun n => operationRest n level lhs) (n + 1) := by
  refine ⟨opening_operationRest level lhs, fun t => On.of_succ (on_peek ?_)⟩
  cases found : level.operator? t.kind with
  | none => exact (predictive_pure lhs).on t
  | some op =>
    refine On.advance nullWords (Operator.ne_end (Level.operator_of found)) ?_
    refine (ih.operand level).andThen (fun rhs => ?_) fun _ closes => closes
    exact (predictive_newExpr _ _).andThen (fun whole => ih.operationRest level whole)
      fun _ closes => closes

theorem operand_predictive (level : Level) :
    Predictive nullWords Closes (fun n => operand n level) (n + 1) := by
  refine ⟨opening_operand level, fun t => On.of_succ ?_⟩
  cases level with
  | multiplicative => exact ih.unary.on t
  | _ => exact (ih.operation _).on t

theorem unary_predictive : Predictive nullWords Closes unary (n + 1) := by
  refine ⟨opening_unary, fun t => On.of_succ (on_peek ?_)⟩
  cases found : unaryOp? t.kind with
  | none => exact (ih.primary.on t).bind [] (fun head => ih.trailers head) fun _ closes => closes
  | some op =>
    refine On.advance nullWords (sign_of found).2 ?_
    exact ih.unary.andThen (fun operand => predictive_newExpr _ _) fun _ closes => closes

theorem trailers_predictive (head : Expr) :
    Predictive [] Closes (fun n => trailers n head) (n + 1) := by
  refine ⟨opening_trailers head, fun t => On.of_succ ?_⟩
  refine on_eat [sign .rightParen] (by decide) (fun _ => ?_) fun _ => ?_
  · refine (ih.items .rightParen ")" (.inl rfl)).andThen (fun r => ?_) fun _ _ => trivial
    exact (predictive_newExpr _ _).andThen (fun whole => ih.trailers whole) fun _ closes => closes
  · refine on_eat (nullWords ++ [sign .rightBracket]) (by decide) (fun _ => ?_) fun _ =>
      (predictive_pure head).on t
    refine (ih.operation .equality).bind (fun index => ?_) fun _ _ => .inr (.inl rfl)
    refine .expect (by decide) fun close => ?_
    exact (predictive_newExpr _ _).andThen (fun whole => ih.trailers whole) fun _ closes => closes

theorem items_predictive (closing : TokenKind) (expected : String)
    (closes : closing = .rightParen ∨ closing = .rightBracket) :
    Predictive [sign closing] Anything (fun n => items n closing expected) (n + 1) := by
  have more : closing ≠ .endOfInput := by rcases closes with rfl | rfl <;> decide
  have ends : Closes closing := closes.imp_right .inl
  refine ⟨opening_items more expected,
    fun t => On.of_succ (on_peek (on_eat [] more (fun _ => ?_) fun _ => ?_))⟩
  · exact predictive_pure _
  · refine ((ih.operation .equality).on t).bind [sign closing] (fun item => ?_) fun _ _ => ends
    refine ⟨reads_peek_any fun _ => reads_eat more (reads_pure trivial), fun u => ?_⟩
    refine on_peek (on_eat [] more (fun _ => predictive_pure _) fun _ => ?_)
    refine on_eat [sign closing] (by decide) (fun _ => ?_) fun _ => on_unexpected expected
    exact (ih.items closing expected closes).andThen (fun r => predictive_pure _) fun _ _ => trivial

theorem block_predictive : Predictive (Written.brace []) Anything block (n + 1) := by
  refine ⟨opening_block, fun t => On.of_succ (on_expect [sign .rightBrace] (by decide) fun l => ?_)⟩
  refine (ih.statements .rightBrace (.inl rfl)).bind (fun ss => ?_) fun _ _ => rfl
  refine ⟨reads_advance (by decide) fun _ _ => reads_newBlock fun _ => trivial, fun u => ?_⟩
  by_cases ended : u.kind = .endOfInput
  · exact .advance_end ended ((predictive_newBlock _ ss).on u)
  · exact .advance [] ended (predictive_newBlock _ ss)

theorem statements_predictive (closing : TokenKind)
    (closes : closing = .rightBrace ∨ closing = .endOfInput) :
    Predictive [] (· = closing) (fun n => statements n closing) (n + 1) := by
  have ends : ∀ kind, kind = closing → Closes kind := by
    rintro kind rfl
    exact .inr (.inr closes)
  refine ⟨opening_statements closes, fun t => On.of_succ ?_⟩
  refine on_eat [] (by decide) (fun _ => ih.statements closing closes) fun _ => on_peek ?_
  by_cases closed : t.kind = closing
  · simp only [if_pos closed]
    exact (predictive_pure []).on t
  · by_cases ended : t.kind = .endOfInput
    · simp only [if_neg closed, if_pos ended]
      exact on_unexpected _
    · simp only [if_neg closed, if_neg ended]
      refine (ih.statement.on t).bind [] (fun first => ?_) ends
      exact (ih.statements closing closes).andThen (fun rest => predictive_pure _) fun _ closed =>
        closed

theorem declaration_on (isConst : Bool) (t : Token) (more : t.kind ≠ .endOfInput) :
    On t Closes (fun n => declaration n isConst) (n + 1) := by
  refine On.of_succ (On.advance ([(.identifier, "x"), sign .assign] ++ nullWords) more ?_)
  refine .expect (by decide) fun name => .expect (by decide) fun _ => ?_
  exact (ih.operation .equality).andThen (fun value => predictive_ending _) fun _ closes => closes

/-- A function's parameters and its body. -/
theorem function_predictive {α : Type} {make : List String → Block → ParseM α}
    (rest : ∀ xs b, Predictive [] Closes (fun _ => make xs b) n) :
    Predictive (Written.params [] ++ Written.brace []) Closes
      (fun n => paramList n >>= fun xs => block n >>= fun b => make xs b) n :=
  (predictive_paramList n).bind (fun xs => ih.block.andThen (rest xs) fun _ _ => trivial) fun _ _ =>
    trivial

theorem primary_predictive : Predictive nullWords Closes primary (n + 1) := by
  refine ⟨opening_primary, fun t => On.of_succ (on_peek ?_)⟩
  cases found : literal? t with
  | some value => exact .advance [] (constant_of_literal? found).2 (predictive_newExpr _ _)
  | none =>
    cases kind : t.kind with
    | integer =>
      have more : t.kind ≠ .endOfInput := by simp [kind]
      cases value : int64? t.text.toList with
      | some value => exact .advance [] more (predictive_newExpr _ _)
      | none =>
        refine on_fails (.atToken .invalidInteger t) fun n s here => ?_
        obtain ⟨ts, whole⟩ := current_cons (here ▸ more)
        obtain ⟨tokens, ast⟩ := s
        rw [here] at whole
        cases whole
        exact ⟨⟨ts, ast⟩, run_advance_bind more _ _ _, .taken⟩
    | identifier => exact .advance [] (by simp [kind]) (predictive_newExpr _ _)
    | leftParen =>
      refine .advance (nullWords ++ [sign .rightParen]) (by simp [kind]) ?_
      refine (ih.operation .equality).bind (fun inner => ?_) fun _ _ => .inl rfl
      exact .expect (by decide) fun _ => predictive_pure inner
    | leftBracket =>
      refine .advance [sign .rightBracket] (by simp [kind]) ?_
      exact (ih.items .rightBracket "]" (.inr rfl)).andThen (fun r => predictive_newExpr _ _)
        fun _ _ => trivial
    | fnWord =>
      refine .advance (Written.params [] ++ sign .arrow :: nullWords) (by simp [kind]) ?_
      refine (predictive_paramList n).bind (fun xs => .expect (by decide) fun _ => ?_) fun _ _ =>
        trivial
      refine (ih.operation .equality).andThen (fun body => ?_) fun _ closes => closes
      exact (predictive_newFunc _ _ _ _).andThen (fun func => predictive_newExpr _ _)
        fun _ closes => closes
    | functionWord =>
      refine .advance (Written.params [] ++ Written.brace []) (by simp [kind]) ?_
      refine function_predictive ih fun xs b => ?_
      exact (predictive_newFunc _ _ _ _).andThen (fun func => predictive_newExpr _ _)
        fun _ closes => closes
    | _ => exact on_unexpected _

theorem definition_takes {t : Token} (more : t.kind ≠ .endOfInput) :
    Takes t Closes (fun n => Form.function.parse n t) n := by
  refine .advance ((.identifier, "x") :: (Written.params [] ++ Written.brace [])) more ?_
  refine .expect (by decide) fun name => function_predictive ih fun xs b => ?_
  exact (predictive_newFunc _ _ _ _).andThen (fun func => predictive_newStmt _) fun _ closes =>
    closes

theorem assignment_takes {t : Token} (more : t.kind ≠ .endOfInput) :
    Takes t Closes (fun n => Form.assign.parse n t) n := by
  refine .advance (sign .assign :: nullWords) more (.expect (by decide) fun _ => ?_)
  exact (ih.operation .equality).andThen (fun value => predictive_ending _) fun _ closes => closes

theorem plain_on (t : Token) : On t Closes (fun n => Form.expr.parse n t) n :=
  ((ih.operation .equality).on t).bind [] (fun _ => predictive_ending _) fun _ closes => closes

theorem plain_takes {t : Token} (ambiguous : Ambiguous t.kind) :
    Takes t Closes (fun n => Form.expr.parse n t) n := by
  obtain ⟨ws, reads, _⟩ := ambiguous_reads (w := t.word) ambiguous
  refine .of_mends (plain_on ih t) (.inr (.inr (.inr rfl))) fun ast => ?_
  exact .of_reads_cons (reads_form_closed reads t).any

theorem form_on (t : Token) (second : TokenKind) :
    On t Closes (fun n => (Form.of t.kind second).parse n t) n := by
  cases form : Form.of t.kind second with
  | declaration isConst => exact ih.declaration isConst t (Form.ne_end form (by simp))
  | function => exact (definition_takes ih (Form.ne_end form (by simp))).toOn
  | block => exact (ih.block.on t).bind [] (fun body => predictive_newStmt _) fun _ _ => trivial
  | assign => exact (assignment_takes ih (Form.ne_end form (by simp))).toOn
  | expr => exact plain_on ih t

/-- Whatever an ambiguous token turns out to begin, it is taken. -/
theorem form_takes {t : Token} (ambiguous : Ambiguous t.kind) (second : TokenKind) :
    Takes t Closes (fun n => (Form.of t.kind second).parse n t) n := by
  cases form : Form.of t.kind second with
  | function => exact definition_takes ih (Form.ne_end form (by simp))
  | assign => exact assignment_takes ih (Form.ne_end form (by simp))
  | expr => exact plain_takes ih ambiguous
  | declaration isConst =>
    rcases ambiguous with kind | kind <;> rw [kind] at form <;> cases second <;> cases form
  | block => rcases ambiguous with kind | kind <;> rw [kind] at form <;> cases second <;> cases form

theorem statement_predictive : Predictive nullWords Closes statement (n + 1) := by
  refine ⟨opening_statement, fun t =>
    ⟨fun s here => ?_, fun k le us rest rest' ast => ?_, fun us rest ast past => ?_⟩⟩
  · rw [run_statement here]
    exact (form_on ih t _).advances s here
  · obtain ⟨k, rfl⟩ : ∃ l, k = l + 1 := ⟨k - 1, by omega⟩
    rw [run_statement (t := t) rfl, run_statement (t := t) rfl]
    dsimp only
    by_cases same : Form.of t.kind (secondKind (t :: us ++ rest)) =
      Form.of t.kind (secondKind (t :: us ++ rest'))
    · rw [← same]
      exact (form_on ih t _).coincides k (by omega) us rest rest' ast
    · -- The form hangs on tokens that are not shared, and the first run got past what is.
      obtain ⟨rfl, ambiguous⟩ := form_differs same
      exact ((form_takes ih ambiguous _).taken rest ast).elim .lacks .past
  · rw [run_statement (t := t) rfl] at past
    by_cases same : ∀ rest',
        Form.of t.kind (secondKind (t :: us ++ rest')) =
          Form.of t.kind (secondKind (t :: us ++ rest))
    · refine ((form_on ih t _).mends us rest ast past).of_gives fun rest' a s given => .of_succ ?_
      obtain ⟨least, given⟩ := given
      refine ⟨least, fun k le => ?_⟩
      show (statement (k + 1)).run ⟨t :: us ++ rest', ast⟩ = _
      rw [run_statement (t := t) rfl]
      dsimp only
      rw [same rest']
      exact given k le
    · obtain ⟨rest', differ⟩ := Classical.not_forall.mp same
      obtain ⟨rfl, ambiguous⟩ := form_differs differ
      obtain ⟨ws, _, reads⟩ := ambiguous_reads (w := t.word) ambiguous
      exact .of_reads_cons reads

end Steps

theorem predicts (n : Nat) : Predicts n := by
  induction n with
  | zero =>
    exact {
      statement := .unfinished opening_statement rfl
      declaration := fun _ _ _ => on_unfinished rfl
      statements := fun _ closes => .unfinished (opening_statements closes) rfl
      block := .unfinished opening_block rfl
      operation := fun level => .unfinished (opening_operation level) rfl
      operationRest := fun level lhs => .unfinished (opening_operationRest level lhs) rfl
      operand := fun level => .unfinished (opening_operand level) rfl
      unary := .unfinished opening_unary rfl
      trailers := fun head => .unfinished (opening_trailers head) rfl
      items := fun _ expected closes =>
        .unfinished (opening_items (by rcases closes with rfl | rfl <;> decide) expected) rfl
      primary := .unfinished opening_primary rfl }
  | succ n ih =>
    exact ⟨statement_predictive ih, declaration_on ih, statements_predictive ih,
      block_predictive ih, operation_predictive ih, operationRest_predictive ih,
      operand_predictive ih, unary_predictive ih, trailers_predictive ih, items_predictive ih,
      primary_predictive ih⟩

theorem program_eq_error {n : Nat} {s s' : ParseState} {e : ParseError} :
    (program n).run s = .error e s' ↔ (statements n .endOfInput).run s = .error e s' := by
  rw [program, run_peek, bind_eq_error]
  refine or_iff_left ?_
  rintro ⟨ss, t, _, failed⟩
  cases failed

/-- `endOfInput` is the last token, and the only one of its kind. -/
def Terminated (tokens : List Token) : Prop :=
  ∃ us last, Ended tokens us last ∧ ∀ t ∈ us, t.kind ≠ .endOfInput

end ScriptKit.Parser

namespace ScriptKit
open ScriptKit.Parser

/-- The catalogue that is added to has no say in whether tokens are a program. -/
theorem parseProgram_fresh {tokens us : List Token} {last : Token} (ended : Ended tokens us last)
    (ast : Ast) :
    ∃ move, (parseProgram tokens ast).1 = (parseProgram tokens {}).1.map move := by
  let r := Relocation.behind ast 0
  have spans : ∀ s : Span, s.move r = s := by
    intro s
    simp [Span.move, r, Relocation.behind]
  have tokens' : tokens.map (Token.move r id) = tokens := by
    refine (List.map_congr_left fun t _ => ?_).trans (List.map_id tokens)
    simp [Token.move, spans]
  have moved := parseProgram_moved ended ast r (fun _ _ => rfl) id {}
  rw [tokens', Ast.extend_empty] at moved
  refine ⟨Block.move r, ?_⟩
  rw [moved]
  cases (parseProgram tokens {}).1 with
  | ok b => rfl
  | error e =>
    show Except.error (e.move r id) = .error e
    simp [ParseError.move, spans]

theorem parseProgram_error_fresh {tokens us : List Token} {last : Token}
    (ended : Ended tokens us last) {e : ParseError} {ast : Ast}
    (failed : (parseProgram tokens ast).1 = .error e) (ast' : Ast) :
    (parseProgram tokens ast').1 = .error e := by
  obtain ⟨move, here⟩ := parseProgram_fresh ended ast
  obtain ⟨move', there⟩ := parseProgram_fresh ended ast'
  rw [failed] at here
  rw [there]
  cases found : (parseProgram tokens {}).1 with
  | ok b =>
    rw [found] at here
    cases here
  | error e' =>
    rw [found] at here
    cases here
    rfl

theorem parseProgram_ok_fresh {tokens us : List Token} {last : Token} (ended : Ended tokens us last)
    {b : Block} {ast : Ast} (done : (parseProgram tokens ast).1 = .ok b) (ast' : Ast) :
    ∃ b', (parseProgram tokens ast').1 = .ok b' := by
  cases found : (parseProgram tokens ast').1 with
  | ok b' => exact ⟨b', rfl⟩
  | error e => cases (parseProgram_error_fresh ended found ast).symm.trans done

theorem parseProgram_eq_error {tokens : List Token} {ast : Ast} {e : ParseError} :
    (parseProgram tokens ast).1 = .error e ↔
      ∃ s, (program (stepsFor tokens)).run ⟨tokens, ast⟩ = .error e s := by
  simp only [parseProgram, Parser.run, EStateM.run]
  cases program (stepsFor tokens) ⟨tokens, ast⟩ <;> simp

section Failure

variable {us rest : List Token} {t : Token} {ast : Ast} {e : ParseError} {s : ParseState} {n : Nat}

/-- The token that is cited, with those before and behind it. -/
theorem statements_cited {tokens : List Token} (ended : Terminated tokens)
    (finished : e.kind ≠ .unfinished)
    (failed : (statements n .endOfInput).run ⟨tokens, ast⟩ = .error e s) :
    ∃ us t rest, tokens = us ++ t :: rest ∧ (∀ u ∈ us, u.kind ≠ .endOfInput) ∧
      Cites e s (t :: rest) := by
  have advances := ((predicts n).statements .endOfInput (.inr rfl)).advances ⟨tokens, ast⟩
  rw [failed] at advances
  obtain lacks | ⟨us, vs, whole, inside, cites⟩ := advances
  · exact absurd lacks finished
  cases vs with
  | cons t rest => exact ⟨us, t, rest, whole, inside, cites⟩
  | nil =>
    -- All tokens would have been taken, the last one too.
    obtain ⟨vs, last, ⟨split, isEnd⟩, _⟩ := ended
    refine absurd isEnd (inside last ?_)
    rw [← List.append_nil us, ← whole]
    simp [split]

/-- The same token is cited whatever is behind it. -/
theorem statements_cited_again
    (failed : (statements n .endOfInput).run ⟨us ++ t :: rest, ast⟩ = .error e s)
    (cites : Cites e s (t :: rest)) {k : Nat} (le : n ≤ k) (rest' : List Token) :
    ∃ s', (statements k .endOfInput).run ⟨us ++ t :: rest', ast⟩ = .error e s' := by
  have coincides :=
    ((predicts n).statements .endOfInput (.inr rfl)).coincides le (us ++ [t]) rest rest' ast
  simp only [List.append_assoc, List.singleton_append] at coincides
  rw [failed] at coincides
  generalize (statements k .endOfInput).run ⟨us ++ t :: rest', ast⟩ = r at coincides ⊢
  cases coincides with
  | error => exact ⟨_, rfl⟩
  | past past =>
    obtain ⟨vs, left, short⟩ := past
    have same :=
      left.length_eq (show Remains (.error e s : RunResult (List Stmt)) (t :: rest) from cites)
    simp only [List.length_cons] at same
    omega
  | lacks lacks => exact absurd lacks cites.finished

/-- Some tokens in place of the one that is cited make it statements. -/
theorem statements_completed
    (failed : (statements n .endOfInput).run ⟨us ++ t :: rest, ast⟩ = .error e s)
    (cites : Cites e s (t :: rest)) :
    ∃ vs, (∀ v ∈ vs, v.kind ≠ .endOfInput) ∧
      ∃ ss s', Gives (fun n => statements n .endOfInput) ⟨us ++ (vs ++ [noToken]), ast⟩ ss s' := by
  have past : Past (t :: rest) ((statements n .endOfInput).run ⟨us ++ t :: rest, ast⟩) := by
    rw [failed]
    exact ⟨_, cites, Nat.le_refl _⟩
  obtain ⟨ws, mends⟩ := ((predicts n).statements .endOfInput (.inr rfl)).mends past
  obtain ⟨ss, ast', least, given⟩ := mends (ws.map spell) [noToken] (words_spell ws) rfl
  refine ⟨ws.map spell, fun v member => ?_, ss, _, least, given⟩
  -- Whatever is taken is not `endOfInput`.
  obtain ⟨⟨ts, passes, _⟩, _⟩ := (derived least).statements (given least (Nat.le_refl _))
  have whole := passes.tokens
  rw [← List.append_assoc] at whole
  refine passes.inside v ?_
  rw [← List.append_cancel_right whole]
  exact List.mem_append_right us member

theorem parseProgram_cited_again
    (failed : (statements n .endOfInput).run ⟨us ++ t :: rest, ast⟩ = .error e s)
    (cites : Cites e s (t :: rest)) {ts : List Token} (ended : Terminated ts)
    (agree : ts.take (us.length + 1) = (us ++ t :: rest).take (us.length + 1)) (ast' : Ast) :
    (parseProgram ts ast').1 = .error e := by
  have whole : ts = us ++ t :: ts.drop (us.length + 1) := by
    calc
      ts = ts.take (us.length + 1) ++ ts.drop (us.length + 1) := (List.take_append_drop _ _).symm
      _ = us ++ t :: ts.drop (us.length + 1) := by rw [agree, List.take_length_add_append]; simp
  obtain ⟨vs, last, isLast, _⟩ := ended
  obtain ⟨s', again⟩ := statements_cited_again failed cites (show n ≤ n + stepsFor ts by omega)
    (ts.drop (us.length + 1))
  rw [← whole] at again
  have again := program_eq_error.mpr again
  rw [program_more_steps isLast (by omega)] at again
  exact parseProgram_error_fresh isLast (parseProgram_eq_error.mpr ⟨s', again⟩) ast'

theorem parseProgram_completed
    (failed : (statements n .endOfInput).run ⟨us ++ t :: rest, ast⟩ = .error e s)
    (cites : Cites e s (t :: rest)) (inside : ∀ u ∈ us, u.kind ≠ .endOfInput) :
    ∃ ts, Terminated ts ∧ ts.take us.length = us ∧ ∀ ast', ∃ b,
      (parseProgram ts ast').1 = .ok b := by
  obtain ⟨vs, inside', ss, s', least, given⟩ := statements_completed failed cites
  let ts := us ++ (vs ++ [noToken])
  have isLast : Ended ts (us ++ vs) noToken := ⟨by rw [List.append_assoc], rfl⟩
  refine ⟨ts, ⟨us ++ vs, noToken, isLast, fun u member => ?_⟩, by simp [ts], fun ast' => ?_⟩
  · exact (List.mem_append.mp member).elim (inside u) (inside' u)
  · obtain ⟨b, s₁, done, _⟩ := program_of_statements (given (least + stepsFor ts) (by omega))
    rw [program_more_steps isLast (by omega)] at done
    exact parseProgram_ok_fresh isLast
      (congrArg Prod.fst (parseProgram_eq_ok.mpr ⟨s₁, done, rfl⟩)) ast'

end Failure

/-- An error cites the first token that no program goes on with. The tokens before it can be
completed to a program, and with it they have the same error whatever is behind. -/
theorem parseProgram_viable_prefix {ts : List Token} {ast : Ast} {e : ParseError}
    (ended : Terminated ts) (failed : (parseProgram ts ast).1 = .error e) :
    ∃ i t s, ts[i]? = some t ∧ e = .atToken e.kind t ∧
      (program (stepsFor ts)).run ⟨ts, ast⟩ = .error e s ∧ Cites e s (ts.drop i) ∧
      (∀ ts' ast', Terminated ts' → ts'.take (i + 1) = ts.take (i + 1) →
        (parseProgram ts' ast').1 = .error e) ∧
      ∃ ts', Terminated ts' ∧ ts'.take i = ts.take i ∧ ∀ ast', ∃ b,
        (parseProgram ts' ast').1 = .ok b := by
  obtain ⟨s, run⟩ := parseProgram_eq_error.mp failed
  have finished :=
    program_finishes (show 16 * ts.length + 13 ≤ stepsFor ts by simp only [stepsFor]; omega) e s run
  have inner := program_eq_error.mp run
  obtain ⟨us, t, rest, rfl, inside, cites⟩ := statements_cited ended finished inner
  refine ⟨us.length, t, s, by simp, cites.error_eq, run, by simpa using cites, ?_, ?_⟩
  · intro ts' ast' ended' agree
    exact parseProgram_cited_again inner cites ended' agree ast'
  · rw [List.take_left]
    exact parseProgram_completed inner cites inside

/-- In `x = [f((2]` the closing bracket is not in its place. -/
theorem parseProgram_viable_prefix_bracket :
    let words : List (TokenKind × String) :=
  [(.identifier, "x"), (.assign, "="), (.leftBracket, "["),
      (.identifier, "f"), (.leftParen, "("), (.leftParen, "("), (.integer, "2"),
      (.rightBracket, "]"), (.endOfInput, "")]
    let ts : List Token := words.mapIdx fun i w => ⟨w.1, w.2, ⟨i, i + 1⟩, .origin, .origin⟩
    ∃ e, (parseProgram ts {}).1 = .error e ∧ e.message = "unexpected token `]`, expecting )" ∧
      e.span = ⟨7, 8⟩ ∧
      Terminated ts ∧ ∃ i t s, ts[i]? = some t ∧ e = .atToken e.kind t ∧
        (program (stepsFor ts)).run ⟨ts, {}⟩ = .error e s ∧ Cites e s (ts.drop i) ∧
        (∀ ts' ast', Terminated ts' → ts'.take (i + 1) = ts.take (i + 1) →
          (parseProgram ts' ast').1 = .error e) ∧
        ∃ ts', Terminated ts' ∧ ts'.take i = ts.take i ∧
          ∀ ast', ∃ b, (parseProgram ts' ast').1 = .ok b := by
  intro words ts
  have ended : Terminated ts :=
    ⟨ts.dropLast, ⟨.endOfInput, "", ⟨8, 9⟩, .origin, .origin⟩, ⟨rfl, rfl⟩, by decide⟩
  have verdict : (((parseProgram ts {}).1.map fun _ => none).tryCatch fun e =>
      .ok (some e)).toOption =
      some (some ⟨.unexpectedToken ")", "`]`", ⟨7, 8⟩, .origin⟩) := by decide +kernel
  cases failed : (parseProgram ts {}).1 with
  | ok b =>
    rw [failed] at verdict
    cases verdict
  | error e =>
    rw [failed] at verdict
    cases verdict
    exact ⟨_, rfl, by decide +kernel, rfl, ended, parseProgram_viable_prefix ended failed⟩

end ScriptKit
