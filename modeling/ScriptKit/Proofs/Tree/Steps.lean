import ScriptKit.Proofs.Tree.Derivation

/-! No parser uses up the steps that are granted for its tokens.

Between two parsers that stand on one another either a token is taken, or the second binds more
tightly than the first. Sixteen steps for each token pay for the longest such chain. -/

namespace ScriptKit.Parser
open Grammar

/-- If the parser fails, then not for lack of steps. -/
def Finishes {α : Type} (m : ParseM α) (s : ParseState) : Prop :=
  ∀ e s', m.run s = .error e s' → e.kind ≠ .unfinished

section Small

variable {α β : Type} {s s' : ParseState}

theorem bind_eq_error {m : ParseM α} {k : α → ParseM β} {e : ParseError} :
    (m >>= k).run s = .error e s' ↔
      m.run s = .error e s' ∨ ∃ a t, m.run s = .ok a t ∧ (k a).run t = .error e s' := by
  simp only [Bind.bind, EStateM.bind, EStateM.run]
  cases m s with
  | ok a t => simp [EStateM.Result.ok.injEq, and_assoc]
  | error e t => simp

theorem Finishes.bind {m : ParseM α} {k : α → ParseM β} (first : Finishes m s)
    (rest : ∀ a t, m.run s = .ok a t → Finishes (k a) t) : Finishes (m >>= k) s := by
  intro e s' failed
  rcases bind_eq_error.mp failed with early | ⟨a, t, done, late⟩
  · exact first e s' early
  · exact rest a t done e s' late

theorem finishes_peek {k : Token → ParseM α} (rest : Finishes (k (current s.tokens)) s) :
    Finishes (peek >>= k) s :=
  rest

theorem finishes_pure (a : α) : Finishes (pure a) s := by
  intro e s' failed
  cases failed

theorem finishes_modifyGet (f : ParseState → α × ParseState) : Finishes (modifyGet f) s := by
  intro e s' failed
  cases failed

theorem finishes_advance : Finishes advance s :=
  finishes_modifyGet _

theorem finishes_newExpr (span : Span) (make : Node → Expr) : Finishes (newExpr span make) s :=
  finishes_modifyGet _

theorem finishes_unexpected (expected : String) : Finishes (unexpected expected : ParseM α) s := by
  intro e s' failed
  cases failed
  exact ParseErrorKind.noConfusion

theorem finishes_expect (kind : TokenKind) (expected : String) :
    Finishes (expect kind expected) s := by
  unfold expect
  apply finishes_peek
  split
  · exact finishes_advance
  · exact finishes_unexpected expected

theorem finishes_eat (kind : TokenKind) : Finishes (eat kind) s := by
  unfold eat
  apply finishes_peek
  split
  · exact finishes_advance.bind fun _ _ _ => finishes_pure true
  · exact finishes_pure false

theorem Passes.length {ts : List Token} (passes : Passes s ts s') :
    s.tokens.length = ts.length + s'.tokens.length := by
  rw [passes.tokens, List.length_append]

theorem length_advance {t : Token} (more : (current s.tokens).kind ≠ .endOfInput)
    (done : advance.run s = .ok t s') : s.tokens.length = s'.tokens.length + 1 := by
  have passes := (advance_eq_ok more done).2.length
  simp only [List.length_singleton] at passes
  omega

theorem length_expect {kind : TokenKind} {expected : String} {t : Token} (more : kind ≠ .endOfInput)
    (done : (expect kind expected).run s = .ok t s') : s.tokens.length = s'.tokens.length + 1 := by
  have passes := (expect_eq_ok more done).2.length
  simp only [List.length_singleton] at passes
  omega

theorem length_eat {kind : TokenKind} {b : Bool} (more : kind ≠ .endOfInput)
    (done : (eat kind).run s = .ok b s') :
    s.tokens.length = s'.tokens.length + if b then 1 else 0 := by
  rcases eat_eq_ok more done with ⟨rfl, t, _, passes⟩ | ⟨rfl, rfl, _⟩
  · have passes := passes.length
    simp only [List.length_singleton] at passes
    simp only [if_true]
    omega
  · rfl

end Small

/-- The derivation took a token at least. -/
theorem length_visible {s s' : ParseState} {symbol : Symbol} (visible : symbol.isVisible = true)
    (took : ∃ ts, Passes s ts s' ∧ Derives symbol ts) : s'.tokens.length < s.tokens.length := by
  obtain ⟨ts, passes, derived⟩ := took
  have some_token := List.length_pos_iff.mpr (derived.ne_nil visible)
  have passes := passes.length
  omega

def Level.height : Level → Nat
  | equality => 4
  | comparison => 3
  | additive => 2
  | multiplicative => 1

structure Finishing (n : Nat) : Prop where
  statement : ∀ s, 16 * s.tokens.length + 12 ≤ n → Finishes (statement n) s
  declaration : ∀ s isConst, (current s.tokens).kind ≠ .endOfInput → 16 * s.tokens.length ≤ n →
    Finishes (declaration n isConst) s
  statements : ∀ s closing, 16 * s.tokens.length + 13 ≤ n → Finishes (statements n closing) s
  block : ∀ s, 16 * s.tokens.length + 1 ≤ n → Finishes (block n) s
  operation : ∀ s level, 16 * s.tokens.length + 2 * level.height + 2 ≤ n →
    Finishes (operation n level) s
  operationRest : ∀ s level lhs, 16 * s.tokens.length + 1 ≤ n →
      Finishes (operationRest n level lhs) s
  operand : ∀ s level, 16 * s.tokens.length + 2 * level.height + 1 ≤ n →
      Finishes (operand n level) s
  unary : ∀ s, 16 * s.tokens.length + 2 ≤ n → Finishes (unary n) s
  trailers : ∀ s head, 16 * s.tokens.length + 1 ≤ n → Finishes (trailers n head) s
  items : ∀ s closing expected, closing ≠ .endOfInput → 16 * s.tokens.length + 11 ≤ n →
    Finishes (items n closing expected) s
  primary : ∀ s, 16 * s.tokens.length + 1 ≤ n → Finishes (primary n) s

theorem params_finishes (n : Nat) (s : ParseState) (steps : 16 * s.tokens.length + 1 ≤ n) :
    Finishes (params n) s := by
  induction n generalizing s with
  | zero => omega
  | succ n ih =>
    unfold params
    refine (finishes_expect _ _).bind fun x s₁ named => ?_
    have first := length_expect (by decide) named
    refine (finishes_eat _).bind fun closed s₂ ate => ?_
    have second := length_eat (by decide) ate
    split
    · exact finishes_pure _
    · refine (finishes_expect _ _).bind fun comma s₃ parted => ?_
      have third := length_expect (by decide) parted
      exact (ih s₃ (by omega)).bind fun rest s₄ _ => finishes_pure _

theorem paramList_finishes (n : Nat) (s : ParseState) (steps : 16 * s.tokens.length ≤ n) :
    Finishes (paramList n) s := by
  unfold paramList
  refine (finishes_expect _ _).bind fun l s₁ opened => ?_
  have first := length_expect (by decide) opened
  refine (finishes_eat _).bind fun closed s₂ ate => ?_
  have second := length_eat (by decide) ate
  split
  · exact finishes_pure _
  · exact params_finishes n s₂ (by omega)

theorem length_paramList {n : Nat} {s s' : ParseState} {xs : List String}
    (done : (paramList n).run s = .ok xs s') : s'.tokens.length ≤ s.tokens.length := by
  obtain ⟨ts, passes, _⟩ := paramList_derived done
  have passes := passes.length
  omega

section Steps

variable {n : Nat} (ih : Finishing n) {s : ParseState}

include ih

theorem declaration_finishes (isConst : Bool) (more : (current s.tokens).kind ≠ .endOfInput)
    (steps : 16 * s.tokens.length ≤ n + 1) : Finishes (declaration (n + 1) isConst) s := by
  unfold declaration
  refine finishes_advance.bind fun keyword s₁ taken => ?_
  have first := length_advance more taken
  refine (finishes_expect _ _).bind fun name s₂ named => ?_
  have second := length_expect (by decide) named
  refine (finishes_expect _ _).bind fun eq s₃ equals => ?_
  have third := length_expect (by decide) equals
  refine (ih.operation s₃ .equality (by simp only [Level.height]; omega)).bind fun value s₄ _ => ?_
  exact (finishes_eat _).bind fun _ s₅ _ => finishes_modifyGet _

theorem statement_finishes (steps : 16 * s.tokens.length + 12 ≤ n + 1) :
    Finishes (statement (n + 1)) s := by
  unfold statement
  apply finishes_peek
  intro e s' failed
  rw [run_peekSecond] at failed
  revert e s'
  change Finishes _ s
  dsimp only
  split
  · rename_i kind
    exact ih.declaration s false (by simp [kind]) (by omega)
  · rename_i kind
    exact ih.declaration s true (by simp [kind]) (by omega)
  · rename_i kind _
    refine finishes_advance.bind fun _ s₁ taken => ?_
    have first := length_advance (by simp [kind]) taken
    refine (finishes_expect _ _).bind fun name s₂ named => ?_
    have second := length_expect (by decide) named
    refine (paramList_finishes n s₂ (by omega)).bind fun xs s₃ params => ?_
    have third := length_paramList params
    refine (ih.block s₃ (by omega)).bind fun body s₄ _ => ?_
    exact (finishes_modifyGet _).bind fun func s₅ _ => finishes_modifyGet _
  · exact (ih.block s (by omega)).bind fun body s₁ _ => finishes_modifyGet _
  · rename_i kind _
    refine finishes_advance.bind fun _ s₁ taken => ?_
    have first := length_advance (by simp [kind]) taken
    refine (finishes_expect _ _).bind fun eq s₂ equals => ?_
    have second := length_expect (by decide) equals
    refine (ih.operation s₂ .equality (by simp only [Level.height]; omega)).bind fun value s₃
      _ => ?_
    exact (finishes_eat _).bind fun _ s₄ _ => finishes_modifyGet _
  · refine (ih.operation s .equality (by simp only [Level.height]; omega)).bind fun value s₁ _ => ?_
    exact (finishes_eat _).bind fun _ s₂ _ => finishes_modifyGet _

theorem statements_finishes (closing : TokenKind) (steps : 16 * s.tokens.length + 13 ≤ n + 1) :
    Finishes (statements (n + 1) closing) s := by
  unfold statements
  refine (finishes_eat _).bind fun passed s₁ ate => ?_
  have first := length_eat (by decide) ate
  split
  · rename_i yes
    simp only [yes, if_true] at first
    exact ih.statements s₁ closing (by omega)
  · apply finishes_peek
    split
    · exact finishes_pure _
    · split
      · exact finishes_unexpected _
      · refine (ih.statement s₁ (by omega)).bind fun st s₂ one => ?_
        have second := length_visible rfl ((derived n).statement one)
        exact (ih.statements s₂ closing (by omega)).bind fun rest s₃ _ => finishes_pure _

theorem block_finishes (steps : 16 * s.tokens.length + 1 ≤ n + 1) : Finishes (block (n + 1)) s := by
  unfold block
  refine (finishes_expect _ _).bind fun l s₁ opened => ?_
  have first := length_expect (by decide) opened
  refine (ih.statements s₁ _ (by omega)).bind fun ss s₂ _ => ?_
  exact finishes_advance.bind fun _ s₃ _ => finishes_modifyGet _

theorem operation_finishes (level : Level)
    (steps : 16 * s.tokens.length + 2 * level.height + 2 ≤ n + 1) :
    Finishes (operation (n + 1) level) s := by
  unfold operation
  refine (ih.operand s level (by omega)).bind fun lhs s₁ left => ?_
  have first := length_visible rfl ((derived n).operand left)
  exact ih.operationRest s₁ level lhs (by omega)

theorem operationRest_finishes (level : Level) (lhs : Expr)
    (steps : 16 * s.tokens.length + 1 ≤ n + 1) :
    Finishes (operationRest (n + 1) level lhs) s := by
  unfold operationRest
  apply finishes_peek
  split
  · exact finishes_pure _
  · rename_i op found
    refine finishes_advance.bind fun _ s₁ taken => ?_
    have first := length_advance (Operator.ne_end (Level.operator_of found)) taken
    have height : level.height ≤ 4 := by cases level <;> decide
    refine (ih.operand s₁ level (by omega)).bind fun rhs s₂ right => ?_
    have second := length_visible rfl ((derived n).operand right)
    refine (finishes_newExpr _ _).bind fun whole s₃ made => ?_
    have same := (newExpr_eq_ok made).2
    exact ih.operationRest s₃ level whole (by rw [same]; omega)

theorem operand_finishes (level : Level)
    (steps : 16 * s.tokens.length + 2 * level.height + 1 ≤ n + 1) :
    Finishes (operand (n + 1) level) s := by
  cases level with
  | multiplicative => exact ih.unary s (by simp only [Level.height] at steps; omega)
  | _ =>
    refine ih.operation s _ ?_
    simp only [Level.height] at steps ⊢
    omega

theorem unary_finishes (steps : 16 * s.tokens.length + 2 ≤ n + 1) : Finishes (unary (n + 1)) s := by
  unfold unary
  apply finishes_peek
  split
  · refine (ih.primary s (by omega)).bind fun head s₁ front => ?_
    have first := length_visible rfl ((derived n).primary front)
    exact ih.trailers s₁ head (by omega)
  · rename_i op found
    refine finishes_advance.bind fun _ s₁ taken => ?_
    have first := length_advance (sign_of found).2 taken
    exact (ih.unary s₁ (by omega)).bind fun operand s₂ _ => finishes_modifyGet _

theorem trailers_finishes (head : Expr) (steps : 16 * s.tokens.length + 1 ≤ n + 1) :
    Finishes (trailers (n + 1) head) s := by
  unfold trailers
  refine (finishes_eat _).bind fun opened s₁ ate => ?_
  have first := length_eat (by decide) ate
  split
  · rename_i yes
    simp only [yes, if_true] at first
    refine (ih.items s₁ _ _ (by decide) (by omega)).bind fun r s₂ listed => ?_
    obtain ⟨ts, t, passes, _⟩ := (derived n).items (by decide) listed
    have second := passes.length
    refine (finishes_newExpr _ _).bind fun whole s₃ made => ?_
    have same := (newExpr_eq_ok made).2
    exact ih.trailers s₃ whole (by rw [same]; omega)
  · refine (finishes_eat _).bind fun opened s₂ ate => ?_
    have second := length_eat (by decide) ate
    split
    · rename_i yes
      simp only [yes, if_true] at second
      refine (ih.operation s₂ _ (by simp only [Level.height]; omega)).bind fun i s₃ inside => ?_
      have third := length_visible rfl ((derived n).operation inside)
      refine (finishes_expect _ _).bind fun close s₄ closed => ?_
      have fourth := length_expect (by decide) closed
      refine (finishes_newExpr _ _).bind fun whole s₅ made => ?_
      have same := (newExpr_eq_ok made).2
      exact ih.trailers s₅ whole (by rw [same]; omega)
    · exact finishes_pure _

theorem items_finishes (closing : TokenKind) (expected : String) (more : closing ≠ .endOfInput)
    (steps : 16 * s.tokens.length + 11 ≤ n + 1) : Finishes (items (n + 1) closing expected) s := by
  unfold items
  apply finishes_peek
  refine (finishes_eat _).bind fun ended s₁ ate => ?_
  have first := length_eat more ate
  split
  · exact finishes_pure _
  · refine (ih.operation s₁ _ (by simp only [Level.height]; omega)).bind fun item s₂ inside => ?_
    have second := length_visible rfl ((derived n).operation inside)
    apply finishes_peek
    refine (finishes_eat _).bind fun ended s₃ ate => ?_
    have third := length_eat more ate
    split
    · exact finishes_pure _
    · refine (finishes_eat _).bind fun comma s₄ ate => ?_
      have fourth := length_eat (by decide) ate
      split
      · exact (ih.items s₄ closing expected more (by omega)).bind fun r s₅ _ => finishes_pure _
      · exact finishes_unexpected _

theorem primary_finishes (steps : 16 * s.tokens.length + 1 ≤ n + 1) :
    Finishes (primary (n + 1)) s := by
  unfold primary
  apply finishes_peek
  split
  · exact finishes_advance.bind fun _ s₁ _ => finishes_modifyGet _
  · split
    · refine finishes_advance.bind fun _ s₁ _ => ?_
      split
      · exact finishes_modifyGet _
      · intro e s' failed
        cases failed
        exact ParseErrorKind.noConfusion
    · exact finishes_advance.bind fun _ s₁ _ => finishes_modifyGet _
    · rename_i kind
      refine finishes_advance.bind fun _ s₁ taken => ?_
      have first := length_advance (by simp [kind]) taken
      refine (ih.operation s₁ _ (by simp only [Level.height]; omega)).bind fun inner s₂ _ => ?_
      exact (finishes_expect _ _).bind fun _ s₃ _ => finishes_pure _
    · rename_i kind
      refine finishes_advance.bind fun _ s₁ taken => ?_
      have first := length_advance (by simp [kind]) taken
      exact (ih.items s₁ _ _ (by decide) (by omega)).bind fun r s₂ _ => finishes_modifyGet _
    · rename_i kind
      refine finishes_advance.bind fun _ s₁ taken => ?_
      have first := length_advance (by simp [kind]) taken
      refine (paramList_finishes n s₁ (by omega)).bind fun xs s₂ params => ?_
      have second := length_paramList params
      refine (finishes_expect _ _).bind fun arrow s₃ pointed => ?_
      have third := length_expect (by decide) pointed
      refine (ih.operation s₃ _ (by simp only [Level.height]; omega)).bind fun body s₄ _ => ?_
      exact (finishes_modifyGet _).bind fun func s₅ _ => finishes_modifyGet _
    · rename_i kind
      refine finishes_advance.bind fun _ s₁ taken => ?_
      have first := length_advance (by simp [kind]) taken
      refine (paramList_finishes n s₁ (by omega)).bind fun xs s₂ params => ?_
      have second := length_paramList params
      refine (ih.block s₂ (by omega)).bind fun body s₃ _ => ?_
      exact (finishes_modifyGet _).bind fun func s₄ _ => finishes_modifyGet _
    · exact finishes_unexpected _

end Steps

theorem finishing (n : Nat) : Finishing n := by
  induction n with
  | zero =>
    constructor <;> intros
    case declaration s _ more steps =>
      obtain ⟨rest, whole⟩ := current_cons more
      have := congrArg List.length whole
      simp at this
      omega
    all_goals omega
  | succ n ih =>
    exact ⟨fun _ => statement_finishes ih, fun _ => declaration_finishes ih,
      fun _ => statements_finishes ih, fun _ => block_finishes ih, fun _ => operation_finishes ih,
      fun _ => operationRest_finishes ih, fun _ => operand_finishes ih, fun _ => unary_finishes ih,
      fun _ => trailers_finishes ih, fun _ => items_finishes ih, fun _ => primary_finishes ih⟩

end ScriptKit.Parser
