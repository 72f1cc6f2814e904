import ScriptKit.Proofs.Tree.Relocation
import ScriptKit.Proofs.Tree.Steps

/-! Parsers side by side.

The second run sees the same tokens at other offsets, adds to another catalogue, and may take
more steps. In place of `endOfInput` it may go on with a semicolon. Where the first run succeeds,
so does the second, with the same tree, moved. If both end with `endOfInput`, they have the same
errors too. -/

namespace ScriptKit.Parser

section Statements

variable {n : Nat} {closing : TokenKind} {t : Token} {ts : List Token} {ast : Ast}

theorem run_statements_end {s : ParseState} (closing : TokenKind)
    (ended : (current s.tokens).kind = .endOfInput) :
    (statements (n + 1) closing).run s =
      if closing = .endOfInput then .ok [] s
      else (unexpected "\x7d" : ParseM (List Stmt)).run s := by
  simp only [statements, eat, bind_assoc, run_peek, ended]
  rw [if_neg (by decide)]
  simp only [pure_bind, Bool.false_eq_true, if_false, run_peek, ended]
  by_cases same : closing = .endOfInput
  · subst same
    simp only [if_true]
    rfl
  · simp only [if_neg same, if_neg (Ne.symm same), if_true]

theorem run_statements_cons :
    (statements (n + 1) closing).run ⟨t :: ts, ast⟩ =
      if t.kind = .semicolon then (statements n closing).run ⟨ts, ast⟩
      else if t.kind = closing then .ok [] ⟨t :: ts, ast⟩
      else if t.kind = .endOfInput then (unexpected "\x7d" : ParseM (List Stmt)).run ⟨t :: ts, ast⟩
      else
        (do let first ← statement n
            return first :: (← statements n closing)).run ⟨t :: ts, ast⟩ := by
  simp only [statements, eat, bind_assoc, run_peek]
  have first : current (t :: ts) = t := rfl
  rw [first]
  split
  · rename_i semi
    simp only [bind_assoc, pure_bind, if_true]
    exact run_advance_bind (by rw [semi]; decide) _ ts ast
  · simp only [pure_bind, Bool.false_eq_true, if_false, run_peek, first]
    split
    · rfl
    · split <;> rfl

end Statements

inductive Form where
  | declaration (isConst : Bool)
  | function
  | block
  | assign
  | expr

def Form.of : TokenKind → TokenKind → Form
  | .varWord, _ => declaration false
  | .constWord, _ => declaration true
  | .functionWord, .identifier => function
  | .leftBrace, _ => block
  | .identifier, .assign => assign
  | _, _ => expr

def Form.parse (n : Nat) (t : Token) : Form → ParseM Stmt
  | declaration isConst => Parser.declaration n isConst
  | function => do
    let _ ← advance
    let name ← expect .identifier "a function name"
    let params ← paramList n
    let body ← Parser.block n
    let span := t.span.join body.span
    let func ← newFunc span (some name.text) params (.block body)
    newStmt fun id => .function ⟨id, span⟩ name.text func
  | block => do
    let body ← Parser.block n
    newStmt fun id => .block id body
  | assign => do
    let _ ← advance
    let _ ← expect .assign "="
    let value ← operation n .equality
    let _ ← eat .semicolon
    newStmt fun id => .assign ⟨id, t.span.join value.span⟩ t.text value
  | expr => do
    let value ← operation n .equality
    let _ ← eat .semicolon
    newStmt fun id => .expr id value

theorem statement_succ (n : Nat) : statement (n + 1) = (do
    let t ← peek
    let second ← peekSecond
    (Form.of t.kind second).parse n t) := by
  rw [statement]
  congr 1
  funext t
  congr 1
  funext second
  cases t.kind with
  | functionWord => cases second <;> rfl
  | identifier => cases second <;> rfl
  | _ => rfl

theorem Form.of_end (kind : TokenKind) : Form.of kind .endOfInput = Form.of kind .semicolon := by
  cases kind <;> rfl

theorem Form.expr_of {kind : TokenKind} (ends : kind = .endOfInput ∨ kind = .semicolon)
    (second : TokenKind) : Form.of kind second = .expr := by
  rcases ends with rfl | rfl <;> rfl

theorem Form.ne_end {kind second : TokenKind} {form : Form} (found : Form.of kind second = form)
    (other : form ≠ .expr) : kind ≠ .endOfInput := by
  rintro rfl
  exact other found.symm

/-- What sets the second run apart: where its nodes and its bytes are, and `tail` in place of
`last`. -/
structure Course where
  base : Ast
  relocation : Relocation
  numbers : ∀ family i, relocation.number family i = base.count family + i
  place : Place → Place
  last : Token
  ended : last.kind = .endOfInput
  tail : List Token
  continued : tail = [last.move relocation place] ∨ ∃ t rest, tail = t :: rest ∧ t.kind = .semicolon

namespace Course

variable (c : Course)

def token : Token → Token := Token.move c.relocation c.place

@[simp] theorem kind_token (t : Token) : (c.token t).kind = t.kind := rfl

@[simp] theorem text_token (t : Token) : (c.token t).text = t.text := rfl

@[simp] theorem span_token (t : Token) : (c.token t).span = t.span.move c.relocation := rfl

theorem ending : c.tail = [c.token c.last] ∨ ∃ t rest, c.tail = t :: rest ∧ t.kind = .semicolon :=
  c.continued

def Exact : Prop := c.tail = [c.token c.last]

def here (us : List Token) (ast : Ast) : ParseState :=
  ⟨us ++ [c.last], ast⟩

def there (us : List Token) (ast : Ast) : ParseState :=
  ⟨us.map (c.token) ++ c.tail, c.base.extend c.relocation ast⟩

def Beside {α : Type} (move : α → α) (a : α) (s : ParseState) (b : α) (s' : ParseState) : Prop :=
  ∃ us ast, s = c.here us ast ∧ b = move a ∧ s' = c.there us ast

/-- How the runs may end. If the first one fails, nothing is said of a second one that goes on
behind its end, nor if there were too few steps. -/
inductive Agrees {α β : Type} (R : α → ParseState → β → ParseState → Prop) :
    EStateM.Result ParseError ParseState α → EStateM.Result ParseError ParseState β → Prop where
  | ok {a s b s'} : R a s b s' → Agrees R (.ok a s) (.ok b s')
  | error {e} (us ast) : Agrees R (.error e (c.here us ast))
      (.error (e.move c.relocation c.place) (c.there us ast))
  | lost {e s r} : (c.Exact → e.kind = .unfinished) → Agrees R (.error e s) r

def Follows {α : Type} (move : α → α) (m m' : ParseM α) : Prop :=
  ∀ us ast, c.Agrees (c.Beside move) (m.run (c.here us ast)) (m'.run (c.there us ast))

section Combinators

variable {c} {α β : Type} {move : α → α} {R : α → ParseState → α → ParseState → Prop}
  {Q : β → ParseState → β → ParseState → Prop}

theorem Agrees.bind {m m' : ParseM α} {k k' : α → ParseM β} {s s' : ParseState}
    (first : c.Agrees R (m.run s) (m'.run s'))
    (rest : ∀ a t b t', m.run s = .ok a t → R a t b t' → c.Agrees Q ((k a).run t) ((k' b).run t')) :
    c.Agrees Q ((m >>= k).run s) ((m' >>= k').run s') := by
  simp only [EStateM.run, Bind.bind, EStateM.bind] at *
  generalize m s = r at first rest
  generalize m' s' = r' at first
  cases first with
  | ok related => exact rest _ _ _ _ rfl related
  | error us ast => exact .error us ast
  | lost reason => exact .lost reason

theorem Agrees.imp {R' : α → ParseState → α → ParseState → Prop}
    {r r' : EStateM.Result ParseError ParseState α} (agrees : c.Agrees R r r')
    (weaker : ∀ {a s b s'}, R a s b s' → R' a s b s') : c.Agrees R' r r' := by
  cases agrees with
  | ok related => exact .ok (weaker related)
  | error us ast => exact .error us ast
  | lost reason => exact .lost reason

theorem Follows.bind {m m' : ParseM α} {k k' : α → ParseM β} {us : List Token} {ast : Ast}
    (first : c.Follows move m m')
    (rest : ∀ a us ast, c.Agrees Q ((k a).run (c.here us ast))
      ((k' (move a)).run (c.there us ast))) :
    c.Agrees Q ((m >>= k).run (c.here us ast)) ((m' >>= k').run (c.there us ast)) := by
  refine (first us ast).bind fun a t b t' _ beside => ?_
  obtain ⟨us, ast, rfl, rfl, rfl⟩ := beside
  exact rest a us ast

theorem agrees_pure {a b : α} {us : List Token} {ast : Ast} (same : b = move a) :
    c.Agrees (c.Beside move) ((pure a : ParseM α).run (c.here us ast))
      ((pure b : ParseM α).run (c.there us ast)) :=
  .ok ⟨us, ast, rfl, same, rfl⟩

end Combinators

section Tokens

variable {c} {α : Type} {us : List Token} {ast : Ast} {t : Token}
  {Q : α → ParseState → α → ParseState → Prop}

/-- What the second run sees where the first one sees `endOfInput`. -/
theorem current_tail (c : Course) :
    (current c.tail).kind = .endOfInput ∨ (current c.tail).kind = .semicolon := by
  rcases c.ending with exact | ⟨t, rest, tail, kind⟩
  · exact .inl (by rw [exact]; exact c.ended)
  · exact .inr (by rw [tail]; exact kind)

theorem not_exact {rest : List Token} (tail : c.tail = t :: rest)
    (semi : t.kind = .semicolon) : ¬ c.Exact := by
  intro exact
  have kinds := congrArg (fun ts => (current ts).kind) (tail.symm.trans exact)
  simp [current, semi, c.ended] at kinds

theorem agrees_peek {k k' : Token → ParseM α}
    (more : ∀ t vs, us = t :: vs →
      c.Agrees Q ((k t).run (c.here us ast)) ((k' (c.token t)).run (c.there us ast)))
    (none : us = [] →
      c.Agrees Q ((k c.last).run (c.here [] ast)) ((k' (current c.tail)).run (c.there [] ast))) :
    c.Agrees Q ((peek >>= k).run (c.here us ast)) ((peek >>= k').run (c.there us ast)) := by
  rw [run_peek, run_peek]
  cases us with
  | nil => exact none rfl
  | cons t us => exact more t us rfl

theorem agrees_advance {k k' : Token → ParseM α} (more : t.kind ≠ .endOfInput)
    (rest : c.Agrees Q ((k t).run (c.here us ast)) ((k' (c.token t)).run (c.there us ast))) :
    c.Agrees Q ((advance >>= k).run (c.here (t :: us) ast))
      ((advance >>= k').run (c.there (t :: us) ast)) := by
  simp only [here, there, List.map_cons, List.cons_append] at *
  rw [run_advance_bind more, run_advance_bind (by simpa using more)]
  exact rest

theorem agrees_unexpected (expected : String) :
    c.Agrees Q ((unexpected expected : ParseM α).run (c.here us ast))
      ((unexpected expected : ParseM α).run (c.there us ast)) := by
  refine agrees_peek (fun t vs same => ?_) fun same => ?_
  · exact .error us ast
  · rcases c.ending with exact | ⟨t, rest, tail, kind⟩
    · rw [exact]
      exact .error [] ast
    · exact .lost fun exact => absurd exact (not_exact tail kind)

/-- A kind that ends no statement is not what the first run's end or the second one's tail shows. -/
theorem ends_apart {kind : TokenKind} (more : kind ≠ .endOfInput) (apart : kind ≠ .semicolon) :
    c.last.kind ≠ kind ∧ (current c.tail).kind ≠ kind := by
  refine ⟨by simpa [c.ended] using more.symm, ?_⟩
  rcases c.current_tail with kind' | kind'
  · simpa [kind'] using more.symm
  · simpa [kind'] using apart.symm

theorem follows_expect {kind : TokenKind} (expected : String) (more : kind ≠ .endOfInput)
    (apart : kind ≠ .semicolon) :
    c.Follows (c.token) (expect kind expected) (expect kind expected) := by
  intro us ast
  unfold expect
  refine agrees_peek (fun t vs same => ?_) fun same => ?_
  · subst same
    by_cases here : t.kind = kind
    · rw [if_pos here, if_pos (show (c.token t).kind = kind from here)]
      have took : c.Agrees (c.Beside c.token) ((advance >>= pure).run (c.here (t :: vs) ast))
          ((advance >>= pure).run (c.there (t :: vs) ast)) :=
        agrees_advance (here ▸ more) (agrees_pure rfl)
      simpa using took
    · rw [if_neg here, if_neg (show (c.token t).kind ≠ kind from here)]
      exact agrees_unexpected expected
  · obtain ⟨none, none'⟩ := ends_apart (c := c) more apart
    simp only [if_neg none, if_neg none']
    exact agrees_unexpected expected

theorem follows_eat {kind : TokenKind} (more : kind ≠ .endOfInput) (apart : kind ≠ .semicolon) :
    c.Follows id (eat kind) (eat kind) := by
  intro us ast
  unfold eat
  refine agrees_peek (fun t vs same => ?_) fun same => ?_
  · subst same
    by_cases here : t.kind = kind
    · rw [if_pos here, if_pos (show (c.token t).kind = kind from here)]
      exact agrees_advance (here ▸ more) (agrees_pure rfl)
    · rw [if_neg here, if_neg (show (c.token t).kind ≠ kind from here)]
      exact agrees_pure rfl
  · obtain ⟨none, none'⟩ := ends_apart (c := c) more apart
    simp only [if_neg none, if_neg none']
    exact agrees_pure rfl

theorem agrees_unfinished {r : EStateM.Result ParseError ParseState α} {s : ParseState} :
    c.Agrees Q ((unfinished : ParseM α).run s) r :=
  .lost fun _ => rfl

theorem follows_params {n m : Nat} (more : n ≤ m) : c.Follows id (params n) (params m) := by
  induction n generalizing m with
  | zero => exact fun _ _ => agrees_unfinished
  | succ n ih =>
    obtain ⟨m, rfl⟩ : ∃ k, m = k + 1 := ⟨m - 1, by omega⟩
    intro us ast
    unfold params
    refine (follows_expect _ (by decide) (by decide)).bind fun x us ast =>
      (follows_eat (by decide) (by decide)).bind fun closed us ast => ?_
    cases closed with
    | true => exact agrees_pure rfl
    | false =>
      exact (follows_expect _ (by decide) (by decide)).bind fun _ us ast =>
        (ih (by omega)).bind fun rest us ast => agrees_pure rfl

theorem follows_paramList {n m : Nat} (more : n ≤ m) :
    c.Follows id (paramList n) (paramList m) := by
  intro us ast
  unfold paramList
  refine (follows_expect _ (by decide) (by decide)).bind fun _ us ast =>
    (follows_eat (by decide) (by decide)).bind fun closed us ast => ?_
  cases closed with
  | true => exact agrees_pure rfl
  | false => exact follows_params more us ast

end Tokens

section Entering

variable {c} {us : List Token} {ast : Ast}

theorem there_enter (p : Part) :
    c.there us (ast.enter p) =
      { c.there us ast with ast := (c.there us ast).ast.enter (p.move c.relocation) } := by
  simp only [there, Ast.extend_enter]

theorem number_there (c : Course) (us : List Token) (ast : Ast) (family : Family) :
    c.relocation.number family (ast.count family) = (c.there us ast).ast.count family := by
  simp only [there, Ast.count_extend, c.numbers]

theorem follows_newExpr {span span' : Span} {make make' : Node → Expr}
    (at' : span' = span.move c.relocation)
    (same : ∀ n, (make n).move c.relocation = make' (n.move c.relocation .expr)) :
    c.Follows (Expr.move c.relocation) (newExpr span make) (newExpr span' make') := by
  intro us ast
  have next := number_there c us ast .expr
  have made : make' ⟨(c.there us ast).ast.exprs.size, span'⟩ =
      (make ⟨ast.exprs.size, span⟩).move c.relocation := by
    rw [same, at']
    simp only [Node.move]
    exact congrArg (fun i => make' ⟨i, _⟩) next.symm
  refine .ok ⟨us, ast.enter (.expr (make ⟨ast.exprs.size, span⟩)), rfl, made, ?_⟩
  rw [there_enter, Part.move, ← made]
  rfl

theorem follows_newFunc {span span' : Span} {name : Option String} {params : List String}
    {body body' : Body} (at' : span' = span.move c.relocation)
    (same : body' = body.move c.relocation) :
    c.Follows (Func.move c.relocation) (newFunc span name params body)
      (newFunc span' name params body') := by
  subst at' same
  intro us ast
  have next := number_there c us ast .func
  have made : Func.mk ⟨(c.there us ast).ast.funcs.size, span.move c.relocation⟩ name params
      (body.move c.relocation) =
        (Func.mk ⟨ast.funcs.size, span⟩ name params body).move c.relocation := by
    simp only [Func.move, Node.move]
    exact congrArg (fun i => Func.mk ⟨i, _⟩ _ _ _) next.symm
  refine .ok ⟨us, ast.enter (.func (.mk ⟨ast.funcs.size, span⟩ name params body)), rfl, made, ?_⟩
  rw [there_enter, Part.move, ← made]
  rfl

theorem follows_newBlock {span span' : Span} {ss ss' : List Stmt}
    (at' : span' = span.move c.relocation) (same : ss' = ss.map (Stmt.move c.relocation)) :
    c.Follows (Block.move c.relocation) (newBlock span ss) (newBlock span' ss') := by
  subst at' same
  intro us ast
  have next := number_there c us ast .block
  have made : Block.mk ⟨(c.there us ast).ast.blocks.size, span.move c.relocation⟩
      (ss.map (Stmt.move c.relocation)) =
        (Block.mk ⟨ast.blocks.size, span⟩ ss).move c.relocation := by
    simp only [Block.move, Node.move, Stmt.moveAll_eq_map]
    exact congrArg (fun i => Block.mk ⟨i, _⟩ _) next.symm
  refine .ok ⟨us, ast.enter (.block (.mk ⟨ast.blocks.size, span⟩ ss)), rfl, made, ?_⟩
  rw [there_enter, Part.move, ← made]
  rfl

theorem follows_newStmt {make make' : Nat → Stmt}
    (same : ∀ i, (make i).move c.relocation = make' (c.relocation.number .stmt i)) :
    c.Follows (Stmt.move c.relocation) (newStmt make) (newStmt make') := by
  intro us ast
  have next := number_there c us ast .stmt
  have made : make' (c.there us ast).ast.stmts.size = (make ast.stmts.size).move c.relocation := by
    rw [same]
    exact congrArg make' next.symm
  refine .ok ⟨us, ast.enter (.stmt (make ast.stmts.size)), rfl, made, ?_⟩
  rw [there_enter, Part.move, ← made]
  rfl

end Entering

/-- Both runs take a statement for the same, also where the second token is behind the first run's
end. -/
theorem form_there (t : Token) (vs : List Token) (ast : Ast) :
    Form.of t.kind (secondKind (c.there (t :: vs) ast).tokens) =
      Form.of t.kind (secondKind (c.here (t :: vs) ast).tokens) := by
  cases vs with
  | nil =>
    rcases c.ending with exact | ⟨u, rest, tail, kind⟩
    · simp [here, there, exact, secondKind]
    · simp [here, there, tail, kind, c.ended, Form.of_end, secondKind]
  | cons u vs => rfl

/-- The runs after a statement. Where the first one's tokens end, the second one may have passed the
semicolon already. -/
def Ends (a : Stmt) (s : ParseState) (b : Stmt) (s' : ParseState) : Prop :=
  c.Beside (Stmt.move c.relocation) a s b s' ∨
    ∃ ast t rest, c.tail = t :: rest ∧ t.kind = .semicolon ∧ s = c.here [] ast ∧
      b = a.move c.relocation ∧ s' = ⟨rest, c.base.extend c.relocation ast⟩

structure Parallel (n m : Nat) : Prop where
  statement : ∀ us ast,
    c.Agrees c.Ends ((statement n).run (c.here us ast)) ((statement m).run (c.there us ast))
  declaration : ∀ isConst t us ast, t.kind ≠ .endOfInput →
    c.Agrees c.Ends ((declaration n isConst).run (c.here (t :: us) ast))
      ((declaration m isConst).run (c.there (t :: us) ast))
  statements : ∀ closing, c.Exact ∨ closing ≠ .endOfInput →
    c.Follows (List.map (Stmt.move c.relocation)) (statements n closing) (statements m closing)
  block : c.Follows (Block.move c.relocation) (block n) (block m)
  operation : ∀ level, c.Follows (Expr.move c.relocation) (operation n level) (operation m level)
  operationRest : ∀ level lhs, c.Follows (Expr.move c.relocation) (operationRest n level lhs)
    (operationRest m level (lhs.move c.relocation))
  operand : ∀ level, c.Follows (Expr.move c.relocation) (operand n level) (operand m level)
  unary : c.Follows (Expr.move c.relocation) (unary n) (unary m)
  trailers : ∀ head, c.Follows (Expr.move c.relocation) (trailers n head)
    (trailers m (head.move c.relocation))
  items : ∀ closing expected, closing ≠ .endOfInput → closing ≠ .semicolon →
    c.Follows (Prod.map (List.map (Expr.move c.relocation)) (Span.move c.relocation))
      (items n closing expected) (items m closing expected)
  primary : c.Follows (Expr.move c.relocation) (primary n) (primary m)

section Steps

variable {c} {n m : Nat} (ih : c.Parallel n m)

theorem literal?_token (t : Token) : literal? (c.token t) = literal? t := rfl

theorem run_primary_blocked {s : ParseState}
    (ends : (current s.tokens).kind = .endOfInput ∨ (current s.tokens).kind = .semicolon) :
    (primary (n + 1)).run s = (unexpected "an expression" : ParseM Expr).run s := by
  have none : literal? (current s.tokens) = none := by
    unfold literal?
    rcases ends with kind | kind <;> rw [kind]
  rcases ends with kind | kind <;> simp only [primary, run_peek, none, kind]

theorem agrees_ending {make make' : Nat → Stmt} {us : List Token} {ast : Ast}
    (same : ∀ i, (make i).move c.relocation = make' (c.relocation.number .stmt i)) :
    c.Agrees c.Ends ((eat .semicolon >>= fun _ => newStmt make).run (c.here us ast))
      ((eat .semicolon >>= fun _ => newStmt make').run (c.there us ast)) := by
  have entered : ∀ us ast, c.Agrees c.Ends ((newStmt make).run (c.here us ast))
      ((newStmt make').run (c.there us ast)) :=
    fun us ast => (follows_newStmt same us ast).imp .inl
  unfold eat
  simp only [bind_assoc]
  refine agrees_peek (fun t vs here => ?_) fun here => ?_
  · subst here
    by_cases semi : t.kind = .semicolon
    · rw [if_pos semi, if_pos (show (c.token t).kind = _ from semi)]
      simp only [bind_assoc, pure_bind]
      exact agrees_advance (by simp [semi]) (entered vs ast)
    · rw [if_neg semi, if_neg (show (c.token t).kind ≠ _ from semi)]
      simp only [pure_bind]
      exact entered (t :: vs) ast
  · subst here
    rw [if_neg (by simp [c.ended])]
    rcases c.ending with exact | ⟨t, rest, tail, semi⟩
    · rw [if_neg (by rw [exact]; simp [current, c.ended])]
      simp only [pure_bind]
      exact entered [] ast
    · -- The second run goes on behind the semicolon.
      have next := number_there c [] ast .stmt
      have made : make' (c.there [] ast).ast.stmts.size =
          (make ast.stmts.size).move c.relocation := by
        rw [same]
        exact congrArg make' next.symm
      rw [if_pos (by rw [tail]; exact semi)]
      simp only [pure_bind]
      have taken : advance.run (c.there [] ast) = .ok t ⟨rest, c.base.extend c.relocation ast⟩ := by
        simp only [there, tail, List.map_nil, List.nil_append]
        exact run_advance (by rw [semi]; decide) rest _
      simp only [EStateM.run, Bind.bind, EStateM.bind] at taken ⊢
      rw [taken]
      refine .ok (.inr ⟨ast.enter (.stmt (make ast.stmts.size)), t, rest, tail, semi, rfl,
        made, ?_⟩)
      rw [Ast.extend_enter, Part.move, ← made]
      rfl

include ih

theorem operation_follows (level : Level) :
    c.Follows (Expr.move c.relocation) (operation (n + 1) level) (operation (m + 1) level) := by
  intro us ast
  exact (ih.operand level).bind fun lhs us ast => ih.operationRest level lhs us ast

theorem operationRest_follows (level : Level) (lhs : Expr) :
    c.Follows (Expr.move c.relocation) (operationRest (n + 1) level lhs)
      (operationRest (m + 1) level (lhs.move c.relocation)) := by
  intro us ast
  unfold operationRest
  refine agrees_peek (fun t vs here => ?_) fun here => ?_
  · subst here
    simp only [kind_token]
    cases found : level.operator? t.kind with
    | none => exact agrees_pure rfl
    | some op =>
      refine agrees_advance (Operator.ne_end (Level.operator_of found)) ?_
      refine (ih.operand level).bind fun rhs us ast => ?_
      refine (follows_newExpr (by simp) fun _ => ?_).bind fun whole us ast =>
        ih.operationRest level whole us ast
      simp only [Expr.move]
  · have none : ∀ kind, kind = .endOfInput ∨ kind = .semicolon → level.operator? kind = none := by
      rintro kind (rfl | rfl) <;> cases level <;> rfl
    rw [none _ (.inl c.ended), none _ c.current_tail]
    exact agrees_pure rfl

theorem operand_follows (level : Level) :
    c.Follows (Expr.move c.relocation) (operand (n + 1) level) (operand (m + 1) level) := by
  cases level with
  | multiplicative => exact ih.unary
  | _ => exact ih.operation _

theorem unary_follows : c.Follows (Expr.move c.relocation) (unary (n + 1)) (unary (m + 1)) := by
  have plain : c.Follows (Expr.move c.relocation) (primary n >>= trailers n)
      (primary m >>= trailers m) :=
    fun us ast => ih.primary.bind fun head us ast => ih.trailers head us ast
  intro us ast
  unfold unary
  refine agrees_peek (fun t vs here => ?_) fun here => ?_
  · subst here
    simp only [kind_token]
    cases found : unaryOp? t.kind with
    | none => exact plain (t :: vs) ast
    | some op =>
      refine agrees_advance (sign_of found).2 ?_
      refine ih.unary.bind fun operand us ast => ?_
      refine follows_newExpr (by simp) (fun _ => ?_) us ast
      simp only [Expr.move]
  · have none : ∀ kind, kind = .endOfInput ∨ kind = .semicolon → unaryOp? kind = none := by
      rintro kind (rfl | rfl) <;> rfl
    rw [none _ (.inl c.ended), none _ c.current_tail]
    exact plain [] ast

theorem trailers_follows (head : Expr) : c.Follows (Expr.move c.relocation) (trailers (n + 1) head)
    (trailers (m + 1) (head.move c.relocation)) := by
  intro us ast
  unfold trailers
  refine (follows_eat (by decide) (by decide)).bind fun opened us ast => ?_
  cases opened with
  | true =>
    refine (ih.items _ _ (by decide) (by decide)).bind fun r us ast => ?_
    refine (follows_newExpr (by simp) fun _ => ?_).bind fun whole us ast => ih.trailers whole us ast
    simp [Expr.move]
  | false =>
    refine (follows_eat (by decide) (by decide)).bind fun opened us ast => ?_
    cases opened with
    | true =>
      refine (ih.operation _).bind fun i us ast => ?_
      refine (follows_expect _ (by decide) (by decide)).bind fun close us ast => ?_
      refine (follows_newExpr (by simp) fun _ => ?_).bind fun whole us ast =>
        ih.trailers whole us ast
      simp only [Expr.move]
    | false => exact agrees_pure rfl

theorem block_follows : c.Follows (Block.move c.relocation) (block (n + 1)) (block (m + 1)) := by
  intro us ast
  unfold block
  refine (follows_expect _ (by decide) (by decide)).bind fun l us ast => ?_
  refine (ih.statements .rightBrace (.inr (by decide)) us ast).bind
    fun ss s ss' s' done beside => ?_
  obtain ⟨vs, ast, rfl, rfl, rfl⟩ := beside
  have closed := ((derived n).statements done).2
  cases vs with
  | nil => simp [here, current, c.ended] at closed
  | cons r vs =>
    simp only [here, current, List.cons_append, List.headD_cons] at closed
    refine agrees_advance (by simp [closed]) ?_
    exact follows_newBlock (by simp) rfl vs ast

theorem items_follows (closing : TokenKind) (expected : String) (more : closing ≠ .endOfInput)
    (apart : closing ≠ .semicolon) :
    c.Follows (Prod.map (List.map (Expr.move c.relocation)) (Span.move c.relocation))
      (items (n + 1) closing expected) (items (m + 1) closing expected) := by
  -- A closing token is looked at first, so that its span is known once it is taken.
  have closes : ∀ (us : List Token) (ast : Ast) (es : List Expr)
      (k k' : ParseM (List Expr × Span)), (∀ us ast, c.Agrees
        (c.Beside (Prod.map (List.map (Expr.move c.relocation)) (Span.move c.relocation)))
        (k.run (c.here us ast)) (k'.run (c.there us ast))) →
      c.Agrees (c.Beside (Prod.map (List.map (Expr.move c.relocation)) (Span.move c.relocation)))
        ((do let t ← peek
             if ← eat closing then return (es, t.span) else k).run (c.here us ast))
        ((do let t ← peek
             if ← eat closing then return (es.map (Expr.move c.relocation), t.span)
             else k').run (c.there us ast)) := by
    intro us ast es k k' next
    refine agrees_peek (fun t vs here => ?_) fun here => ?_
    · refine (follows_eat more apart).bind fun closed us ast => ?_
      cases closed with
      | true => exact agrees_pure rfl
      | false => exact next us ast
    · obtain ⟨none, none'⟩ := ends_apart (c := c) more apart
      simp only [eat, bind_assoc, run_peek]
      rw [if_neg (show (current (c.here [] ast).tokens).kind ≠ closing from none),
        if_neg (show (current (c.there [] ast).tokens).kind ≠ closing from none')]
      exact next [] ast
  intro us ast
  unfold items
  refine closes us ast [] _ _ fun us ast => ?_
  refine (ih.operation _).bind fun item us ast => ?_
  refine closes us ast [item] _ _ fun us ast => ?_
  refine (follows_eat (by decide) (by decide)).bind fun comma us ast => ?_
  cases comma with
  | true =>
    exact (ih.items closing expected more apart).bind fun r us ast => agrees_pure rfl
  | false => exact agrees_unexpected expected

theorem primary_follows (le : n ≤ m) :
    c.Follows (Expr.move c.relocation) (primary (n + 1)) (primary (m + 1)) := by
  intro us ast
  cases us with
  | nil =>
    rw [run_primary_blocked (s := c.here [] ast) (.inl c.ended),
      run_primary_blocked (s := c.there [] ast) c.current_tail]
    exact agrees_unexpected _
  | cons t vs =>
    unfold primary
    refine agrees_peek (fun u us here => ?_) fun none => by cases none
    cases here
    simp only [literal?_token, kind_token, text_token, span_token]
    cases found : literal? t with
    | some v =>
      refine agrees_advance (constant_of_literal? found).2 ?_
      exact follows_newExpr rfl (fun _ => rfl) vs ast
    | none =>
      cases kind : t.kind with
      | integer =>
        refine agrees_advance (by simp [kind]) ?_
        cases int64? t.text.toList with
        | none => exact .error vs ast
        | some v => exact follows_newExpr rfl (fun _ => rfl) vs ast
      | identifier =>
        refine agrees_advance (by simp [kind]) ?_
        exact follows_newExpr rfl (fun _ => rfl) vs ast
      | leftParen =>
        refine agrees_advance (by simp [kind]) ?_
        exact (ih.operation _).bind fun inner us ast =>
          (follows_expect _ (by decide) (by decide)).bind fun _ us ast => agrees_pure rfl
      | leftBracket =>
        refine agrees_advance (by simp [kind]) ?_
        refine (ih.items _ _ (by decide) (by decide)).bind fun r us ast => ?_
        exact follows_newExpr (by simp) (fun _ => by simp [Expr.move]) us ast
      | fnWord =>
        refine agrees_advance (by simp [kind]) ?_
        refine (follows_paramList le).bind fun params us ast =>
          (follows_expect _ (by decide) (by decide)).bind fun _ us ast =>
          (ih.operation _).bind fun body us ast => ?_
        refine (follows_newFunc (by simp) (by simp only [Body.move])).bind fun func us ast => ?_
        exact follows_newExpr (by simp) (fun _ => by simp only [Expr.move]) us ast
      | functionWord =>
        refine agrees_advance (by simp [kind]) ?_
        refine (follows_paramList le).bind fun params us ast =>
          ih.block.bind fun body us ast => ?_
        refine (follows_newFunc (by simp) (by simp only [Body.move])).bind fun func us ast => ?_
        exact follows_newExpr (by simp) (fun _ => by simp only [Expr.move]) us ast
      | _ => exact agrees_unexpected _
theorem declaration_follows (isConst : Bool) (t : Token) (us : List Token) (ast : Ast)
    (more : t.kind ≠ .endOfInput) :
    c.Agrees c.Ends ((declaration (n + 1) isConst).run (c.here (t :: us) ast))
      ((declaration (m + 1) isConst).run (c.there (t :: us) ast)) := by
  unfold declaration
  refine agrees_advance more ?_
  refine (follows_expect _ (by decide) (by decide)).bind fun name us ast =>
    (follows_expect _ (by decide) (by decide)).bind fun _ us ast =>
    (ih.operation _).bind fun value us ast => ?_
  exact agrees_ending fun _ => by simp [Stmt.move, Node.move]

theorem statement_follows (le : n ≤ m) (us : List Token) (ast : Ast) :
    c.Agrees c.Ends ((statement (n + 1)).run (c.here us ast))
      ((statement (m + 1)).run (c.there us ast)) := by
  have plain : ∀ us ast, c.Agrees c.Ends
      ((do let value ← operation n .equality
           let _ ← eat .semicolon
           newStmt fun id => .expr id value).run (c.here us ast))
      ((do let value ← operation m .equality
           let _ ← eat .semicolon
           newStmt fun id => .expr id value).run (c.there us ast)) := by
    intro us ast
    refine (ih.operation _).bind fun value us ast => ?_
    exact agrees_ending fun _ => by simp only [Stmt.move]
  rw [statement_succ, statement_succ]
  refine agrees_peek (fun t vs here => ?_) fun here => ?_
  · subst here
    rw [run_peekSecond, run_peekSecond, kind_token, form_there]
    generalize secondKind (c.here (t :: vs) ast).tokens = second
    cases form : Form.of t.kind second with
    | declaration isConst => exact ih.declaration isConst t vs ast (Form.ne_end form (by simp))
    | function =>
      refine agrees_advance (Form.ne_end form (by simp)) ?_
      refine (follows_expect _ (by decide) (by decide)).bind fun name us ast =>
        (follows_paramList le).bind fun params us ast =>
        ih.block.bind fun body us ast => ?_
      refine (follows_newFunc (by simp) (by simp only [Body.move])).bind fun func us ast => ?_
      exact (follows_newStmt (fun _ => by simp [Stmt.move, Node.move]) us ast).imp .inl
    | block =>
      refine ih.block.bind fun body us ast => ?_
      exact (follows_newStmt (fun _ => by simp only [Stmt.move]) us ast).imp .inl
    | assign =>
      refine agrees_advance (Form.ne_end form (by simp)) ?_
      refine (follows_expect _ (by decide) (by decide)).bind fun _ us ast =>
        (ih.operation _).bind fun value us ast => ?_
      exact agrees_ending fun _ => by simp [Stmt.move, Node.move]
    | expr => exact plain (t :: vs) ast
  · rw [run_peekSecond, run_peekSecond, Form.expr_of (.inl c.ended), Form.expr_of c.current_tail]
    exact plain [] ast

omit ih in
/-- A block whose tokens end cannot be closed. -/
theorem statements_fails {closing : TokenKind} (more : closing ≠ .endOfInput) (n : Nat)
    (ast : Ast) :
    ∃ e s, (statements n closing).run (c.here [] ast) = .error e s := by
  cases n with
  | zero => exact ⟨_, _, rfl⟩
  | succ n =>
    rw [run_statements_end closing (show (current (c.here [] ast).tokens).kind = _ from c.ended),
      if_neg more]
    exact ⟨_, _, rfl⟩

theorem statements_follows (closing : TokenKind) (inside : c.Exact ∨ closing ≠ .endOfInput) :
    c.Follows (List.map (Stmt.move c.relocation)) (statements (n + 1) closing)
      (statements (m + 1) closing) := by
  intro us ast
  cases us with
  | nil =>
    rw [run_statements_end closing (show (current (c.here [] ast).tokens).kind = _ from c.ended)]
    rcases c.ending with exact | ⟨t, rest, tail, semi⟩
    · rw [run_statements_end closing (s := c.there [] ast) (by
        simp [there, exact, current, c.ended])]
      split
      · exact .ok ⟨[], ast, rfl, rfl, rfl⟩
      · exact agrees_unexpected _
    · have apart := not_exact tail semi
      rw [if_neg (inside.resolve_left apart)]
      exact .lost fun exact => absurd exact apart
  | cons t vs =>
    have kind : (c.token t).kind = t.kind := rfl
    simp only [here, there, List.map_cons, List.cons_append]
    rw [run_statements_cons, run_statements_cons, kind]
    by_cases semi : t.kind = .semicolon
    · rw [if_pos semi, if_pos semi]
      exact ih.statements closing inside vs ast
    rw [if_neg semi, if_neg semi]
    by_cases closed : t.kind = closing
    · rw [if_pos closed, if_pos closed]
      exact .ok ⟨t :: vs, ast, rfl, rfl, rfl⟩
    rw [if_neg closed, if_neg closed]
    by_cases ended : t.kind = .endOfInput
    · rw [if_pos ended, if_pos ended]
      change c.Agrees _ ((unexpected _).run (c.here (t :: vs) ast))
        ((unexpected _).run (c.there (t :: vs) ast))
      exact agrees_unexpected _
    rw [if_neg ended, if_neg ended]
    refine (ih.statement (t :: vs) ast).bind fun first s first' s' _ ends => ?_
    rcases ends with ⟨us, ast, rfl, rfl, rfl⟩ | ⟨ast, semi, rest, tail, kind, rfl, rfl, rfl⟩
    · exact (ih.statements closing inside).bind fun rest us ast => agrees_pure rfl
    · -- The first run is at its end but not at the end of the block.
      have apart := not_exact tail kind
      obtain ⟨e, s, failed⟩ := statements_fails (c := c) (inside.resolve_left apart) n ast
      simp only [EStateM.run, Bind.bind, EStateM.bind] at failed ⊢
      rw [failed]
      exact .lost fun exact => absurd exact apart

end Steps

theorem parallel {n m : Nat} (le : n ≤ m) : c.Parallel n m := by
  induction n generalizing m with
  | zero =>
    constructor <;> intros <;> first | exact agrees_unfinished | exact fun _ _ => agrees_unfinished
  | succ n ih =>
    obtain ⟨m, rfl⟩ : ∃ k, m = k + 1 := ⟨m - 1, by omega⟩
    have le : n ≤ m := by omega
    have ih := ih le
    exact ⟨statement_follows ih le, declaration_follows ih, statements_follows ih, block_follows ih,
      operation_follows ih, operationRest_follows ih, operand_follows ih, unary_follows ih,
      trailers_follows ih, items_follows ih, primary_follows ih le⟩

end Course

end ScriptKit.Parser
