import ScriptKit.Proofs.Tree.Catalogue
import ScriptKit.Tree.Parser

/-! Parsers keep the catalogue closed, whether the text turns out to be right or wrong.

A node is entered after the nodes that it is made of, and none is ever taken out. -/

namespace ScriptKit

namespace Parser

def Outcome {α : Type} (base : Ast) (good : Ast → α → Prop) :
    EStateM.Result ParseError ParseState α → Prop
  | .ok a s => s.ast.Closed ∧ base.Keeps s.ast ∧ good s.ast a
  | .error _ s => s.ast.Closed ∧ base.Keeps s.ast

/-- The parser keeps a closed catalogue closed, and its result is `good`. -/
def Builds {α : Type} (base : Ast) (m : ParseM α) (good : Ast → α → Prop) : Prop :=
  ∀ s : ParseState, s.ast.Closed → base.Keeps s.ast → Outcome base good (m s)

def Quiet {α : Type} (m : ParseM α) : Prop :=
  ∀ s, match m s with
    | .ok _ s' | .error _ s' => s'.ast = s.ast

section Combinators

variable {α β : Type} {base : Ast} {good : Ast → α → Prop}

theorem Builds.bind {m : ParseM α} {k : α → ParseM β} {next : Ast → β → Prop}
    (first : Builds base m good)
    (rest : ∀ a later, base.Keeps later → good later a → Builds later (k a) next) :
    Builds base (m >>= k) next := by
  intro s closed keeps
  have done := first s closed keeps
  simp only [Bind.bind, EStateM.bind]
  cases ended : m s with
  | error e s' =>
    rw [ended] at done
    exact done
  | ok a s' =>
    rw [ended] at done
    obtain ⟨closed', keeps', found⟩ := done
    have more := rest a s'.ast keeps' found s' closed' (.refl _)
    dsimp only
    cases ended' : k a s' with
    | error e s'' =>
      rw [ended'] at more
      exact ⟨more.1, keeps'.trans more.2⟩
    | ok b s'' =>
      rw [ended'] at more
      exact ⟨more.1, keeps'.trans more.2.1, more.2.2⟩

theorem builds_pure {a : α} (found : ∀ later, base.Keeps later → good later a) :
    Builds base (pure a) good :=
  fun s closed keeps => ⟨closed, keeps, found s.ast keeps⟩

theorem builds_throw (e : ParseError) : Builds base (throw e : ParseM α) good :=
  fun _ closed keeps => ⟨closed, keeps⟩

theorem Quiet.builds {m : ParseM α} (quiet : Quiet m) : Builds base m fun _ _ => True := by
  intro s closed keeps
  have same := quiet s
  unfold Outcome
  cases ended : m s <;> simp_all

theorem Quiet.bind {m : ParseM α} {k : α → ParseM β} (first : Quiet m) (rest : ∀ a, Quiet (k a)) :
    Quiet (m >>= k) := by
  intro s
  have same := first s
  simp only [Bind.bind, EStateM.bind]
  cases ended : m s with
  | error e s' => simp_all
  | ok a s' =>
    have more := rest a s'
    rw [ended] at same
    dsimp only
    cases ended' : k a s' <;> simp_all

theorem quiet_pure (a : α) : Quiet (pure a : ParseM α) := fun _ => rfl

theorem quiet_throw (e : ParseError) : Quiet (throw e : ParseM α) := fun _ => rfl

end Combinators

section Tokens

theorem quiet_peek : Quiet peek := fun _ => rfl

theorem quiet_peekSecond : Quiet peekSecond := fun _ => rfl

theorem quiet_modifyGet {α : Type} {f : ParseState → α × ParseState}
    (same : ∀ s, (f s).2.ast = s.ast) : Quiet (modifyGet f : ParseM α) :=
  same

theorem quiet_advance : Quiet advance := by
  apply quiet_modifyGet
  intro s
  split
  · split <;> rfl
  · rfl

theorem quiet_eat (kind : TokenKind) : Quiet (eat kind) := by
  refine quiet_peek.bind fun t => ?_
  split
  · exact quiet_advance.bind fun _ => quiet_pure true
  · exact quiet_pure false

theorem quiet_unexpected {α : Type} (expected : String) : Quiet (unexpected expected : ParseM α) :=
  quiet_peek.bind fun _ => quiet_throw _

theorem quiet_unfinished {α : Type} : Quiet (unfinished : ParseM α) :=
  quiet_peek.bind fun _ => quiet_throw _

theorem quiet_expect (kind : TokenKind) (expected : String) : Quiet (expect kind expected) := by
  refine quiet_peek.bind fun t => ?_
  split
  · exact quiet_advance
  · exact quiet_unexpected expected

theorem quiet_params (n : Nat) : Quiet (params n) := by
  induction n with
  | zero => exact quiet_unfinished
  | succ n ih =>
    refine (quiet_expect _ _).bind fun param => (quiet_eat _).bind fun closed => ?_
    split
    · exact quiet_pure _
    · exact (quiet_expect _ _).bind fun _ => ih.bind fun _ => quiet_pure _

theorem quiet_paramList (n : Nat) : Quiet (paramList n) := by
  refine (quiet_expect _ _).bind fun _ => (quiet_eat _).bind fun closed => ?_
  split
  · exact quiet_pure _
  · exact quiet_params n

end Tokens

theorem builds_unexpected {α : Type} {base : Ast} {good : Ast → α → Prop} (expected : String) :
    Builds base (unexpected expected) good :=
  quiet_peek.builds.bind fun _ _ _ _ => builds_throw _

theorem builds_unfinished {α : Type} {base : Ast} {good : Ast → α → Prop} :
    Builds base unfinished good :=
  quiet_peek.builds.bind fun _ _ _ _ => builds_throw _

abbrev IsExpr (ast : Ast) (e : Expr) : Prop := ast.Has (.expr e)

abbrev IsStmt (ast : Ast) (s : Stmt) : Prop := ast.Has (.stmt s)

abbrev IsBlock (ast : Ast) (b : Block) : Prop := ast.Has (.block b)

section Entering

variable {base : Ast}

theorem builds_enter {α : Type} (m : ParseM α) (part : α → Part)
    (entered : ∀ s, ∃ a, m s = .ok a { s with ast := s.ast.enter (part a) } ∧
      (part a).number = s.ast.count (part a).family ∧ ∀ q ∈ (part a).parts, base.Has q) :
    Builds base m fun ast a => ast.Has (part a) := by
  intro s closed keeps
  obtain ⟨a, done, next, parts⟩ := entered s
  rw [done]
  exact ⟨Ast.closed_enter closed next fun q member => keeps.has (parts q member),
    keeps.trans (Ast.keeps_enter s.ast (part a)), Ast.has_enter next⟩

theorem builds_newExpr {span : Span} {make : Node → Expr} (node : ∀ n, (make n).node = n)
    (parts : ∀ n, ∀ q ∈ Part.ofExpr (make n), base.Has q) :
    Builds base (newExpr span make) IsExpr :=
  builds_enter _ .expr fun _ => ⟨_, rfl, congrArg Node.id (node _), parts _⟩

theorem builds_newStmt {make : Nat → Stmt} (id : ∀ n, (make n).id = n)
    (parts : ∀ n, ∀ q ∈ Part.ofStmt (make n), base.Has q) : Builds base (newStmt make) IsStmt :=
  builds_enter _ .stmt fun _ => ⟨_, rfl, id _, parts _⟩

theorem builds_newBlock {span : Span} {ss : List Stmt} (parts : ∀ s ∈ ss, base.Has (.stmt s)) :
    Builds base (newBlock span ss) IsBlock :=
  builds_enter _ .block fun _ => ⟨_, rfl, rfl, List.forall_mem_map.mpr parts⟩

theorem builds_newFunc {span : Span} {name : Option String} {params : List String} {body : Body}
    (part : base.Has (.ofBody body)) :
    Builds base (newFunc span name params body) fun ast f => ast.Has (.func f) :=
  builds_enter _ .func fun _ => ⟨_, rfl, rfl, List.forall_mem_singleton.mpr part⟩

end Entering

structure Sound (n : Nat) : Prop where
  statement : ∀ base, Builds base (statement n) IsStmt
  declaration : ∀ base isConst, Builds base (declaration n isConst) IsStmt
  statements : ∀ base closing,
    Builds base (statements n closing) fun ast ss => ∀ s ∈ ss, ast.Has (.stmt s)
  block : ∀ base, Builds base (block n) IsBlock
  operation : ∀ base level, Builds base (operation n level) IsExpr
  operationRest : ∀ base level lhs, base.Has (.expr lhs) →
    Builds base (operationRest n level lhs) IsExpr
  operand : ∀ base level, Builds base (operand n level) IsExpr
  unary : ∀ base, Builds base (unary n) IsExpr
  trailers : ∀ base head, base.Has (.expr head) → Builds base (trailers n head) IsExpr
  items : ∀ base closing expected,
    Builds base (items n closing expected) fun ast r => ∀ e ∈ r.1, ast.Has (.expr e)
  primary : ∀ base, Builds base (primary n) IsExpr

section Steps

variable {n : Nat} {base : Ast}

theorem statement_builds (sound : Sound n) : Builds base (statement (n + 1)) IsStmt := by
  refine quiet_peek.builds.bind fun t now _ _ =>
    quiet_peekSecond.builds.bind fun second now _ _ => ?_
  dsimp only
  split
  · exact sound.declaration _ false
  · exact sound.declaration _ true
  · refine quiet_advance.builds.bind fun _ now _ _ =>
      (quiet_expect _ _).builds.bind fun name now _ _ =>
      (quiet_paramList n).builds.bind fun params now _ _ =>
      (sound.block _).bind fun body now _ block =>
      (builds_newFunc block).bind fun func now _ func => ?_
    exact builds_newStmt (fun _ => rfl) fun _ => List.forall_mem_singleton.mpr func
  · refine (sound.block _).bind fun body now _ block => ?_
    exact builds_newStmt (fun _ => rfl) fun _ => List.forall_mem_singleton.mpr block
  · refine quiet_advance.builds.bind fun _ now _ _ =>
      (quiet_expect _ _).builds.bind fun _ now _ _ =>
      (sound.operation _ _).bind fun value now _ expr =>
      (quiet_eat _).builds.bind fun _ now keeps _ => ?_
    exact builds_newStmt (fun _ => rfl) fun _ => List.forall_mem_singleton.mpr (keeps.has expr)
  · refine (sound.operation _ _).bind fun value now _ expr =>
      (quiet_eat _).builds.bind fun _ now keeps _ => ?_
    exact builds_newStmt (fun _ => rfl) fun _ => List.forall_mem_singleton.mpr (keeps.has expr)

theorem declaration_builds (sound : Sound n) (isConst : Bool) :
    Builds base (declaration (n + 1) isConst) IsStmt := by
  refine quiet_advance.builds.bind fun keyword now _ _ =>
    (quiet_expect _ _).builds.bind fun name now _ _ =>
    (quiet_expect _ _).builds.bind fun _ now _ _ =>
    (sound.operation _ _).bind fun value now _ expr =>
    (quiet_eat _).builds.bind fun _ now keeps _ => ?_
  exact builds_newStmt (fun _ => rfl) fun _ => List.forall_mem_singleton.mpr (keeps.has expr)

theorem statements_builds (sound : Sound n) (closing : TokenKind) :
    Builds base (statements (n + 1) closing) fun ast ss => ∀ s ∈ ss, ast.Has (.stmt s) := by
  refine (quiet_eat _).builds.bind fun passed now _ _ => ?_
  split
  · exact sound.statements _ closing
  · refine quiet_peek.builds.bind fun t now _ _ => ?_
    split
    · exact builds_pure fun _ _ => by simp
    · split
      · exact builds_unexpected _
      · refine (sound.statement _).bind fun first now _ stmt =>
          (sound.statements _ closing).bind fun rest now keeps stmts => ?_
        refine builds_pure fun later more => ?_
        exact List.forall_mem_cons.mpr
          ⟨more.has (keeps.has stmt), fun s member => more.has (stmts s member)⟩

theorem block_builds (sound : Sound n) : Builds base (block (n + 1)) IsBlock := by
  refine (quiet_expect _ _).builds.bind fun opening now _ _ =>
    (sound.statements _ _).bind fun ss now _ stmts =>
    quiet_advance.builds.bind fun closing now keeps _ => ?_
  exact builds_newBlock fun s member => keeps.has (stmts s member)

theorem operation_builds (sound : Sound n) (level : Level) :
    Builds base (operation (n + 1) level) IsExpr :=
  (sound.operand _ level).bind fun lhs _ _ expr => sound.operationRest _ level lhs expr

theorem operationRest_builds (sound : Sound n) (level : Level) {lhs : Expr}
    (left : base.Has (.expr lhs)) : Builds base (operationRest (n + 1) level lhs) IsExpr := by
  refine quiet_peek.builds.bind fun t now before _ => ?_
  split
  · exact builds_pure fun later more => more.has (before.has left)
  · refine quiet_advance.builds.bind fun _ now more _ =>
      (sound.operand _ level).bind fun rhs now still right => ?_
    refine (builds_newExpr (fun _ => rfl) fun _ => ?_).bind fun whole now _ expr =>
      sound.operationRest _ level whole expr
    exact List.forall_mem_cons.mpr
      ⟨still.has (more.has (before.has left)), List.forall_mem_singleton.mpr right⟩

theorem operand_builds (sound : Sound n) (level : Level) :
    Builds base (operand (n + 1) level) IsExpr := by
  unfold operand
  split
  · exact sound.operation _ _
  · exact sound.unary _

theorem unary_builds (sound : Sound n) : Builds base (unary (n + 1)) IsExpr := by
  refine quiet_peek.builds.bind fun t now _ _ => ?_
  split
  · exact (sound.primary _).bind fun head now _ expr => sound.trailers _ head expr
  · refine quiet_advance.builds.bind fun sign now _ _ =>
      (sound.unary _).bind fun operand now _ expr => ?_
    exact builds_newExpr (fun _ => rfl) fun _ => List.forall_mem_singleton.mpr expr

theorem trailers_builds (sound : Sound n) {head : Expr} (has : base.Has (.expr head)) :
    Builds base (trailers (n + 1) head) IsExpr := by
  refine (quiet_eat _).builds.bind fun opened now before _ => ?_
  split
  · refine (sound.items _ _ _).bind fun r now more args => ?_
    obtain ⟨es, close⟩ := r
    refine (builds_newExpr (fun _ => rfl) fun _ => ?_).bind fun whole now _ expr =>
      sound.trailers _ whole expr
    exact List.forall_mem_cons.mpr
      ⟨more.has (before.has has), List.forall_mem_map.mpr args⟩
  · refine (quiet_eat _).builds.bind fun subscript now still _ => ?_
    split
    · refine (sound.operation _ _).bind fun index now more key =>
        (quiet_expect _ _).builds.bind fun close now later _ => ?_
      refine (builds_newExpr (fun _ => rfl) fun _ => ?_).bind fun whole now _ expr =>
        sound.trailers _ whole expr
      exact List.forall_mem_cons.mpr
        ⟨later.has (more.has (still.has (before.has has))),
          List.forall_mem_singleton.mpr (later.has key)⟩
    · exact builds_pure fun later more => more.has (still.has (before.has has))

theorem items_builds (sound : Sound n) (closing : TokenKind) (expected : String) :
    Builds base (items (n + 1) closing expected) fun ast r => ∀ e ∈ r.1, ast.Has (.expr e) := by
  refine quiet_peek.builds.bind fun t now _ _ => (quiet_eat _).builds.bind fun ended now _ _ => ?_
  split
  · exact builds_pure fun _ _ => by simp
  · refine (sound.operation _ _).bind fun item now _ expr =>
      quiet_peek.builds.bind fun t now first _ =>
        (quiet_eat _).builds.bind fun ended now next _ => ?_
    have held := next.has (first.has expr)
    split
    · exact builds_pure fun later more => List.forall_mem_singleton.mpr (more.has held)
    · refine (quiet_eat _).builds.bind fun comma now before _ => ?_
      split
      · refine (sound.items _ closing expected).bind fun r now after rest => ?_
        exact builds_pure fun later more => List.forall_mem_cons.mpr
          ⟨more.has (after.has (before.has held)), fun e member => more.has (rest e member)⟩
      · exact builds_unexpected _

theorem primary_builds (sound : Sound n) : Builds base (primary (n + 1)) IsExpr := by
  refine quiet_peek.builds.bind fun t now _ _ => ?_
  split
  · refine quiet_advance.builds.bind fun _ now _ _ => ?_
    exact builds_newExpr (fun _ => rfl) fun _ => List.forall_mem_nil _
  · split
    · refine quiet_advance.builds.bind fun _ now _ _ => ?_
      split
      · exact builds_newExpr (fun _ => rfl) fun _ => List.forall_mem_nil _
      · exact builds_throw _
    · refine quiet_advance.builds.bind fun _ now _ _ => ?_
      exact builds_newExpr (fun _ => rfl) fun _ => List.forall_mem_nil _
    · refine quiet_advance.builds.bind fun _ now _ _ =>
        (sound.operation _ _).bind fun inner now _ expr =>
        (quiet_expect _ _).builds.bind fun _ now keeps _ => ?_
      exact builds_pure fun later more => more.has (keeps.has expr)
    · refine quiet_advance.builds.bind fun _ now _ _ =>
        (sound.items _ _ _).bind fun r now _ parts => ?_
      exact builds_newExpr (fun _ => rfl) fun _ => List.forall_mem_map.mpr parts
    · refine quiet_advance.builds.bind fun _ now _ _ =>
        (quiet_paramList n).builds.bind fun params now _ _ =>
        (quiet_expect _ _).builds.bind fun _ now _ _ =>
        (sound.operation _ _).bind fun body now _ expr =>
        (builds_newFunc expr).bind fun func now _ has => ?_
      exact builds_newExpr (fun _ => rfl) fun _ => List.forall_mem_singleton.mpr has
    · refine quiet_advance.builds.bind fun _ now _ _ =>
        (quiet_paramList n).builds.bind fun params now _ _ =>
        (sound.block _).bind fun body now _ block =>
        (builds_newFunc block).bind fun func now _ has => ?_
      exact builds_newExpr (fun _ => rfl) fun _ => List.forall_mem_singleton.mpr has
    · exact builds_unexpected _

theorem sound (n : Nat) : Sound n := by
  -- Without steps left every parser gives up. Otherwise it calls parsers with one step less.
  induction n with
  | zero => constructor <;> intros <;> exact builds_unfinished
  | succ n ih =>
    exact ⟨fun _ => statement_builds ih, fun _ => declaration_builds ih,
      fun _ => statements_builds ih, fun _ => block_builds ih, fun _ => operation_builds ih,
      fun _ level _ => operationRest_builds ih level, fun _ => operand_builds ih,
      fun _ => unary_builds ih, fun _ _ => trailers_builds ih, fun _ => items_builds ih,
      fun _ => primary_builds ih⟩

end Steps

theorem program_builds (n : Nat) (base : Ast) : Builds base (program n) IsBlock := by
  refine quiet_peek.builds.bind fun first now _ _ =>
    ((sound n).statements _ _).bind fun ss now _ stmts =>
    quiet_peek.builds.bind fun last now keeps _ => ?_
  exact builds_newBlock fun s member => keeps.has (stmts s member)

end Parser

/-- A text read into a closed catalogue leaves it closed and takes no node away. If the text is
right, its block is there. -/
theorem parseProgram_closed {ast : Ast} (closed : ast.Closed) (tokens : List Token) :
    (parseProgram tokens ast).2.Closed ∧ ast.Keeps (parseProgram tokens ast).2 ∧
      ∀ b, (parseProgram tokens ast).1 = .ok b → (parseProgram tokens ast).2.Has (.block b) := by
  have built := Parser.program_builds (Parser.stepsFor tokens) ast ⟨tokens, ast⟩ closed (.refl ast)
  simp only [parseProgram, Parser.run]
  cases ended : Parser.program (Parser.stepsFor tokens) ⟨tokens, ast⟩ with
  | error e s =>
    rw [ended] at built
    exact ⟨built.1, built.2, fun b wrong => nomatch wrong⟩
  | ok b s =>
    rw [ended] at built
    exact ⟨built.1, built.2.1, fun _ same => Except.ok.inj same ▸ built.2.2⟩

end ScriptKit
