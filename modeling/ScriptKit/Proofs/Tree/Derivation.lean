import ScriptKit.Proofs.Tree.Grammar
import ScriptKit.Proofs.Tree.Parsing
import ScriptKit.Tree.Printer

/-! Whatever a parser takes is derived from the grammar, and the tree it returns is the tree of the
derivation. -/

namespace ScriptKit.Parser
open Grammar

section Small

variable {α β : Type} {s s' : ParseState}

theorem bind_eq_ok {m : ParseM α} {k : α → ParseM β} {b : β} :
    (m >>= k).run s = .ok b s' ↔ ∃ a t, m.run s = .ok a t ∧ (k a).run t = .ok b s' := by
  simp only [Bind.bind, EStateM.bind, EStateM.run]
  cases m s with
  | ok a t => simp [EStateM.Result.ok.injEq, and_assoc]
  | error e t => simp

theorem run_peek (k : Token → ParseM α) (s : ParseState) :
    (peek >>= k).run s = (k (current s.tokens)).run s := rfl

def secondKind : List Token → TokenKind
  | _ :: t :: _ => t.kind
  | tokens => (current tokens).kind

theorem run_peekSecond (k : TokenKind → ParseM α) (s : ParseState) :
    (peekSecond >>= k).run s = (k (secondKind s.tokens)).run s := rfl

/-- From one state to another these tokens were taken, and `endOfInput` is none of them. -/
structure Passes (s : ParseState) (ts : List Token) (s' : ParseState) : Prop where
  tokens : s.tokens = ts ++ s'.tokens
  inside : ∀ t ∈ ts, t.kind ≠ .endOfInput

theorem Passes.none (same : s'.tokens = s.tokens) : Passes s [] s' :=
  ⟨by simp [same], by simp⟩

theorem Passes.append {t : ParseState} {us vs : List Token} (first : Passes s us t)
    (second : Passes t vs s') : Passes s (us ++ vs) s' := by
  constructor
  · rw [first.tokens, second.tokens, List.append_assoc]
  · intro x member
    rcases List.mem_append.mp member with left | right
    · exact first.inside x left
    · exact second.inside x right

theorem current_cons {tokens : List Token} (more : (current tokens).kind ≠ .endOfInput) :
    ∃ rest, tokens = current tokens :: rest := by
  cases tokens with
  | nil => exact absurd rfl more
  | cons t rest => exact ⟨rest, rfl⟩

theorem run_advance {t : Token} (more : t.kind ≠ .endOfInput) (ts : List Token) (ast : Ast) :
    advance.run ⟨t :: ts, ast⟩ = .ok t ⟨ts, ast⟩ :=
  congrArg (fun taken : Token × ParseState => EStateM.Result.ok taken.1 taken.2) (if_neg more)

/-- `endOfInput` is given, but stays. -/
theorem run_advance_end {t : Token} (ended : t.kind = .endOfInput) (ts : List Token) (ast : Ast) :
    advance.run ⟨t :: ts, ast⟩ = .ok t ⟨t :: ts, ast⟩ :=
  congrArg (fun taken : Token × ParseState => EStateM.Result.ok taken.1 taken.2) (if_pos ended)

theorem run_advance_bind {t : Token} (more : t.kind ≠ .endOfInput) (k : Token → ParseM α)
    (ts : List Token) (ast : Ast) : (advance >>= k).run ⟨t :: ts, ast⟩ = (k t).run ⟨ts, ast⟩ := by
  have taken := run_advance more ts ast
  simp only [EStateM.run, Bind.bind, EStateM.bind] at taken ⊢
  rw [taken]

theorem advance_passes (more : (current s.tokens).kind ≠ .endOfInput) :
    ∃ s', advance.run s = .ok (current s.tokens) s' ∧ Passes s [current s.tokens] s' := by
  obtain ⟨tokens, ast⟩ := s
  obtain ⟨rest, whole⟩ := current_cons more
  refine ⟨⟨rest, ast⟩, ?_, ⟨whole, by simpa using more⟩⟩
  dsimp only at whole more
  generalize current tokens = t at *
  subst whole
  exact run_advance more rest ast

theorem advance_eq_ok {t : Token} (more : (current s.tokens).kind ≠ .endOfInput)
    (done : advance.run s = .ok t s') : t = current s.tokens ∧ Passes s [t] s' := by
  obtain ⟨s'', ran, passes⟩ := advance_passes more
  rw [ran] at done
  cases done
  exact ⟨rfl, passes⟩

theorem expect_eq_ok {kind : TokenKind} {expected : String} {t : Token} (more : kind ≠ .endOfInput)
    (done : (expect kind expected).run s = .ok t s') : t.kind = kind ∧ Passes s [t] s' := by
  unfold expect at done
  rw [run_peek] at done
  split at done
  · rename_i here
    obtain ⟨rfl, passes⟩ := advance_eq_ok (here ▸ more) done
    exact ⟨here, passes⟩
  · cases done

theorem eat_eq_ok {kind : TokenKind} {b : Bool} (more : kind ≠ .endOfInput)
    (done : (eat kind).run s = .ok b s') :
    (b = true ∧ ∃ t, t.kind = kind ∧ Passes s [t] s') ∨
      (b = false ∧ s' = s ∧ (current s.tokens).kind ≠ kind) := by
  unfold eat at done
  rw [run_peek] at done
  split at done
  · rename_i here
    obtain ⟨t, s'', taken, done⟩ := bind_eq_ok.mp done
    obtain ⟨rfl, passes⟩ := advance_eq_ok (here ▸ more) taken
    cases done
    exact .inl ⟨rfl, _, here, passes⟩
  · rename_i here
    cases done
    exact .inr ⟨rfl, rfl, here⟩

theorem ending_of_eat {b : Bool} (done : (eat .semicolon).run s = .ok b s') :
    ∃ ts, Passes s ts s' ∧ Grammar.Ending ts := by
  rcases eat_eq_ok (by decide) done with ⟨_, t, kind, passes⟩ | ⟨_, rfl, _⟩
  · exact ⟨[t], passes, .semicolon kind⟩
  · exact ⟨[], .none rfl, .none⟩

theorem newExpr_eq_ok {span : Span} {make : Node → Expr} {e : Expr}
    (done : (newExpr span make).run s = .ok e s') :
    (∃ node, e = make node) ∧ s'.tokens = s.tokens := by
  cases done
  exact ⟨⟨_, rfl⟩, rfl⟩

theorem newStmt_eq_ok {make : Nat → Stmt} {st : Stmt} (done : (newStmt make).run s = .ok st s') :
    (∃ id, st = make id) ∧ s'.tokens = s.tokens := by
  cases done
  exact ⟨⟨_, rfl⟩, rfl⟩

theorem newBlock_eq_ok {span : Span} {ss : List Stmt} {b : Block}
    (done : (newBlock span ss).run s = .ok b s') :
    (∃ node, b = .mk node ss) ∧ s'.tokens = s.tokens := by
  cases done
  exact ⟨⟨_, rfl⟩, rfl⟩

theorem newFunc_eq_ok {span : Span} {name : Option String} {params : List String} {body : Body}
    {f : Func} (done : (newFunc span name params body).run s = .ok f s') :
    (∃ node, f = .mk node name params body) ∧ s'.tokens = s.tokens := by
  cases done
  exact ⟨⟨_, rfl⟩, rfl⟩

end Small

section Lists

variable {s s' : ParseState}

theorem params_derived {n : Nat} {xs : List String} (done : (params n).run s = .ok xs s') :
    ∃ ts r, Passes s (ts ++ [r]) s' ∧ Names ts xs ∧ r.kind = .rightParen := by
  induction n generalizing s s' xs with
  | zero => cases done
  | succ n ih =>
    simp only [params, bind_eq_ok] at done
    obtain ⟨x, s₁, named, closed, s₂, ate, done⟩ := done
    obtain ⟨isName, first⟩ := expect_eq_ok (by decide) named
    rcases eat_eq_ok (by decide) ate with ⟨rfl, r, kind, second⟩ | ⟨rfl, rfl, _⟩
    · cases done
      exact ⟨[x], r, first.append second, .one isName, kind⟩
    · simp only [Bool.false_eq_true, if_false, bind_eq_ok] at done
      obtain ⟨comma, s₃, parted, rest, s₄, more, done⟩ := done
      obtain ⟨isComma, second⟩ := expect_eq_ok (by decide) parted
      obtain ⟨ts, r, third, names, kind⟩ := ih more
      cases done
      refine ⟨x :: comma :: ts, r, ?_, .more isName isComma names, kind⟩
      simpa using first.append (second.append third)

theorem paramList_derived {n : Nat} {xs : List String} (done : (paramList n).run s = .ok xs s') :
    ∃ ts, Passes s ts s' ∧ Params ts xs := by
  simp only [paramList, bind_eq_ok] at done
  obtain ⟨l, s₁, opened, closed, s₂, ate, done⟩ := done
  obtain ⟨isLeft, first⟩ := expect_eq_ok (by decide) opened
  rcases eat_eq_ok (by decide) ate with ⟨rfl, r, isRight, second⟩ | ⟨rfl, rfl, _⟩
  · cases done
    exact ⟨[l, r], first.append second, .none isLeft isRight⟩
  · obtain ⟨ts, r, second, names, isRight⟩ := params_derived done
    exact ⟨l :: ts ++ [r], by simpa using first.append second, .some isLeft names isRight⟩

end Lists

def Level.rank : Level → Rank
  | equality => .equality
  | comparison => .comparison
  | additive => .additive
  | multiplicative => .multiplicative

theorem Level.operator_of {level : Level} {kind : TokenKind} {op : BinaryOp}
    (found : level.operator? kind = some op) : Operator level.rank kind op := by
  unfold Level.operator? at found
  split at found <;> cases found <;> constructor

theorem Operator.ne_end {rank : Rank} {kind : TokenKind} {op : BinaryOp}
    (operator : Operator rank kind op) : kind ≠ .endOfInput := by
  cases operator <;> decide

theorem sign_of {kind : TokenKind} {op : UnaryOp} (found : unaryOp? kind = some op) :
    Sign kind op ∧ kind ≠ .endOfInput := by
  unfold unaryOp? at found
  split at found <;> cases found
  · exact ⟨.neg, by decide⟩
  · exact ⟨.not, by decide⟩

theorem constant_of_literal? {t : Token} {v : Literal} (found : literal? t = some v) :
    Constant t v ∧ t.kind ≠ .endOfInput := by
  unfold literal? at found
  split at found <;> cases found <;> rename_i kind <;> refine ⟨?_, by simp [kind]⟩
  · exact .text kind
  · exact .yes kind
  · exact .no kind
  · exact .null kind

theorem constant_of_int64? {t : Token} {v : Int64} (kind : t.kind = .integer)
    (found : int64? t.text.toList = some v) : Constant t (.integer v) := by
  obtain ⟨n, read, found⟩ := Option.bind_eq_some_iff.mp found
  split at found
  · rename_i held
    cases found
    have low := (Int64.ofInt n).le_toInt
    have high := (Int64.ofInt n).toInt_lt
    rw [held] at low high
    exact .integer kind (Text.readInt?_eq_some_iff.mp read) low (Int.le_of_lt_add_one high)
  · cases found

example : int64? "-9223372036854775808".toList = some Int64.minValue ∧ int64? "+5".toList = some 5 ∧
    int64? "9223372036854775808".toList = none ∧ int64? "--5".toList = none := by
  decide

structure Derived (n : Nat) : Prop where
  statement : ∀ {s st s'}, (statement n).run s = .ok st s' →
    ∃ ts, Passes s ts s' ∧ Derives (.statement st) ts
  declaration : ∀ {s isConst st s'}, Keyword (current s.tokens).kind isConst →
    (declaration n isConst).run s = .ok st s' → ∃ ts, Passes s ts s' ∧ Derives (.statement st) ts
  statements : ∀ {s closing ss s'}, (statements n closing).run s = .ok ss s' →
    (∃ ts, Passes s ts s' ∧ Derives (.statements ss) ts) ∧ (current s'.tokens).kind = closing
  block : ∀ {s b s'}, (block n).run s = .ok b s' → ∃ ts, Passes s ts s' ∧ Derives (.block b) ts
  operation : ∀ {s level e s'}, (operation n level).run s = .ok e s' →
    ∃ ts, Passes s ts s' ∧ Derives (.phrase level.rank e) ts
  operationRest : ∀ {s level lhs e s' before}, Derives (.phrase level.rank lhs) before →
    (operationRest n level lhs).run s = .ok e s' →
    ∃ ts, Passes s ts s' ∧ Derives (.phrase level.rank e) (before ++ ts)
  operand : ∀ {s level e s'}, (operand n level).run s = .ok e s' →
    ∃ ts, Passes s ts s' ∧ Derives (.phrase level.rank.inner e) ts
  unary : ∀ {s e s'}, (unary n).run s = .ok e s' → ∃ ts, Passes s ts s' ∧
      Derives (.phrase .unary e) ts
  trailers : ∀ {s head e s' before}, Derives (.phrase .trailed head) before →
    (trailers n head).run s = .ok e s' →
    ∃ ts, Passes s ts s' ∧ Derives (.phrase .trailed e) (before ++ ts)
  items : ∀ {s closing expected r s'}, closing ≠ .endOfInput →
    (items n closing expected).run s = .ok r s' →
    ∃ ts t, Passes s (ts ++ [t]) s' ∧ Derives (.args r.1) ts ∧ t.kind = closing
  primary : ∀ {s e s'}, (primary n).run s = .ok e s' →
    ∃ ts, Passes s ts s' ∧ Derives (.phrase .primary e) ts

section Steps

variable {n : Nat} {s s' : ParseState}

theorem declaration_derived (ih : Derived n) {isConst : Bool} {st : Stmt}
    (keyword : Keyword (current s.tokens).kind isConst)
    (done : (declaration (n + 1) isConst).run s = .ok st s') :
    ∃ ts, Passes s ts s' ∧ Derives (.statement st) ts := by
  have more : (current s.tokens).kind ≠ .endOfInput := by
    intro ended
    rw [ended] at keyword
    cases keyword
  simp only [declaration, bind_eq_ok] at done
  obtain ⟨t, s₁, taken, x, s₂, named, eq, s₃, equals, e, s₄, value, b, s₅, ended, done⟩ := done
  obtain ⟨rfl, first⟩ := advance_eq_ok more taken
  obtain ⟨isName, second⟩ := expect_eq_ok (by decide) named
  obtain ⟨isAssign, third⟩ := expect_eq_ok (by decide) equals
  obtain ⟨ts, fourth, phrase⟩ := ih.operation value
  obtain ⟨us, fifth, ending⟩ := ending_of_eat ended
  obtain ⟨⟨id, rfl⟩, same⟩ := newStmt_eq_ok done
  refine ⟨_, ?_, .declare keyword isName isAssign phrase ending⟩
  simpa using first.append
    (second.append (third.append (fourth.append (fifth.append (.none same)))))

theorem statement_derived (ih : Derived n) {st : Stmt}
    (done : (statement (n + 1)).run s = .ok st s') :
    ∃ ts, Passes s ts s' ∧ Derives (.statement st) ts := by
  simp only [statement, run_peek, run_peekSecond] at done
  split at done
  · rename_i kind
    exact ih.declaration (kind ▸ .var) done
  · rename_i kind
    exact ih.declaration (kind ▸ .const) done
  · rename_i kind _
    simp only [bind_eq_ok] at done
    obtain ⟨t, s₁, taken, x, s₂, named, xs, s₃, params, b, s₄, body, f, s₅, made, done⟩ := done
    obtain ⟨rfl, first⟩ := advance_eq_ok (by simp [kind]) taken
    obtain ⟨isName, second⟩ := expect_eq_ok (by decide) named
    obtain ⟨ts, third, params⟩ := paramList_derived params
    obtain ⟨us, fourth, block⟩ := ih.block body
    obtain ⟨⟨_, rfl⟩, same⟩ := newFunc_eq_ok made
    obtain ⟨⟨_, rfl⟩, same'⟩ := newStmt_eq_ok done
    refine ⟨_, ?_, .define kind isName params block⟩
    simpa using first.append
      (second.append (third.append (fourth.append (.none (same'.trans same)))))
  · simp only [bind_eq_ok] at done
    obtain ⟨b, s₁, body, done⟩ := done
    obtain ⟨ts, first, block⟩ := ih.block body
    obtain ⟨⟨_, rfl⟩, same⟩ := newStmt_eq_ok done
    exact ⟨ts, by simpa using first.append (.none same), .nested block⟩
  · rename_i kind _
    simp only [bind_eq_ok] at done
    obtain ⟨t, s₁, taken, eq, s₂, equals, e, s₃, value, b, s₄, ended, done⟩ := done
    obtain ⟨rfl, first⟩ := advance_eq_ok (by simp [kind]) taken
    obtain ⟨isAssign, second⟩ := expect_eq_ok (by decide) equals
    obtain ⟨ts, third, phrase⟩ := ih.operation value
    obtain ⟨us, fourth, ending⟩ := ending_of_eat ended
    obtain ⟨⟨_, rfl⟩, same⟩ := newStmt_eq_ok done
    refine ⟨_, ?_, .assign kind isAssign phrase ending⟩
    simpa using first.append (second.append (third.append (fourth.append (.none same))))
  · simp only [bind_eq_ok] at done
    obtain ⟨e, s₁, value, b, s₂, ended, done⟩ := done
    obtain ⟨ts, first, phrase⟩ := ih.operation value
    obtain ⟨us, second, ending⟩ := ending_of_eat ended
    obtain ⟨⟨_, rfl⟩, same⟩ := newStmt_eq_ok done
    exact ⟨_, by simpa using first.append (second.append (.none same)), .expr phrase ending⟩

theorem statements_derived (ih : Derived n) {closing : TokenKind} {ss : List Stmt}
    (done : (statements (n + 1) closing).run s = .ok ss s') :
    (∃ ts, Passes s ts s' ∧ Derives (.statements ss) ts) ∧ (current s'.tokens).kind = closing := by
  simp only [statements, bind_eq_ok] at done
  obtain ⟨b, s₁, ate, done⟩ := done
  rcases eat_eq_ok (by decide) ate with ⟨rfl, t, kind, first⟩ | ⟨rfl, rfl, _⟩
  · obtain ⟨⟨ts, second, rest⟩, closed⟩ := ih.statements done
    exact ⟨⟨t :: ts, first.append second, .empty kind rest⟩, closed⟩
  · simp only [Bool.false_eq_true, if_false, run_peek] at done
    split at done
    · rename_i closed
      cases done
      exact ⟨⟨[], .none rfl, .nothing⟩, closed⟩
    · split at done
      · cases done
      · simp only [bind_eq_ok] at done
        obtain ⟨st, s₂, one, rest, s₃, others, done⟩ := done
        obtain ⟨ts, first, derived⟩ := ih.statement one
        obtain ⟨⟨us, second, more⟩, closed⟩ := ih.statements others
        cases done
        exact ⟨⟨ts ++ us, first.append second, .next derived more⟩, closed⟩

theorem block_derived (ih : Derived n) {b : Block} (done : (block (n + 1)).run s = .ok b s') :
    ∃ ts, Passes s ts s' ∧ Derives (.block b) ts := by
  simp only [block, bind_eq_ok] at done
  obtain ⟨l, s₁, opened, ss, s₂, body, r, s₃, closed, done⟩ := done
  obtain ⟨isLeft, first⟩ := expect_eq_ok (by decide) opened
  obtain ⟨⟨ts, second, stmts⟩, isRight⟩ := ih.statements body
  obtain ⟨rfl, third⟩ := advance_eq_ok (by simp [isRight]) closed
  obtain ⟨⟨_, rfl⟩, same⟩ := newBlock_eq_ok done
  refine ⟨_, ?_, .braces isLeft stmts isRight⟩
  simpa using first.append (second.append (third.append (.none same)))

theorem operation_derived (ih : Derived n) {level : Level} {e : Expr}
    (done : (operation (n + 1) level).run s = .ok e s') :
    ∃ ts, Passes s ts s' ∧ Derives (.phrase level.rank e) ts := by
  simp only [operation, bind_eq_ok] at done
  obtain ⟨lhs, s₁, left, rest⟩ := done
  obtain ⟨ts, first, operand⟩ := ih.operand left
  obtain ⟨us, second, whole⟩ := ih.operationRest (.inner operand) rest
  exact ⟨ts ++ us, first.append second, whole⟩

theorem operationRest_derived (ih : Derived n) {level : Level} {lhs e : Expr} {before : List Token}
    (left : Derives (.phrase level.rank lhs) before)
    (done : (operationRest (n + 1) level lhs).run s = .ok e s') :
    ∃ ts, Passes s ts s' ∧ Derives (.phrase level.rank e) (before ++ ts) := by
  simp only [operationRest, run_peek] at done
  split at done
  · cases done
    exact ⟨[], .none rfl, by simpa using left⟩
  · rename_i op found
    have operator := Level.operator_of found
    simp only [bind_eq_ok] at done
    obtain ⟨t, s₁, taken, rhs, s₂, right, whole, s₃, made, rest⟩ := done
    obtain ⟨rfl, first⟩ := advance_eq_ok (Operator.ne_end operator) taken
    obtain ⟨ts, second, operand⟩ := ih.operand right
    obtain ⟨⟨_, rfl⟩, same⟩ := newExpr_eq_ok made
    obtain ⟨us, third, derived⟩ := ih.operationRest (.binary left operator operand) rest
    refine ⟨current s.tokens :: ts ++ us, ?_, by simpa using derived⟩
    simpa using first.append (second.append ((Passes.none same).append third))

theorem operand_derived (ih : Derived n) {level : Level} {e : Expr}
    (done : (operand (n + 1) level).run s = .ok e s') :
    ∃ ts, Passes s ts s' ∧ Derives (.phrase level.rank.inner e) ts := by
  cases level with
  | multiplicative => exact ih.unary done
  | _ => exact ih.operation done

theorem unary_derived (ih : Derived n) {e : Expr} (done : (unary (n + 1)).run s = .ok e s') :
    ∃ ts, Passes s ts s' ∧ Derives (.phrase .unary e) ts := by
  simp only [unary, run_peek] at done
  split at done
  · simp only [bind_eq_ok] at done
    obtain ⟨head, s₁, front, rest⟩ := done
    obtain ⟨ts, first, primary⟩ := ih.primary front
    obtain ⟨us, second, whole⟩ := ih.trailers (.inner primary) rest
    exact ⟨ts ++ us, first.append second, .inner whole⟩
  · rename_i op found
    obtain ⟨sign, more⟩ := sign_of found
    simp only [bind_eq_ok] at done
    obtain ⟨t, s₁, taken, a, s₂, operand, done⟩ := done
    obtain ⟨rfl, first⟩ := advance_eq_ok more taken
    obtain ⟨ts, second, phrase⟩ := ih.unary operand
    obtain ⟨⟨_, rfl⟩, same⟩ := newExpr_eq_ok done
    exact ⟨_, by simpa using first.append (second.append (.none same)), .unary sign phrase⟩

theorem trailers_derived (ih : Derived n) {head e : Expr} {before : List Token}
    (front : Derives (.phrase .trailed head) before)
    (done : (trailers (n + 1) head).run s = .ok e s') :
    ∃ ts, Passes s ts s' ∧ Derives (.phrase .trailed e) (before ++ ts) := by
  simp only [trailers, bind_eq_ok] at done
  obtain ⟨b, s₁, ate, done⟩ := done
  rcases eat_eq_ok (by decide) ate with ⟨rfl, l, isLeft, first⟩ | ⟨rfl, rfl, _⟩
  · simp only [if_true, bind_eq_ok] at done
    obtain ⟨r, s₂, listed, whole, s₃, made, rest⟩ := done
    obtain ⟨ts, close, second, args, isRight⟩ := ih.items (by decide) listed
    obtain ⟨⟨_, rfl⟩, same⟩ := newExpr_eq_ok made
    obtain ⟨us, third, derived⟩ := ih.trailers (.call front isLeft args isRight) rest
    refine ⟨l :: ts ++ close :: us, ?_, by simpa using derived⟩
    simpa using first.append (second.append ((Passes.none same).append third))
  · simp only [Bool.false_eq_true, if_false, bind_eq_ok] at done
    obtain ⟨b, s₁, ate, done⟩ := done
    rcases eat_eq_ok (by decide) ate with ⟨rfl, l, isLeft, first⟩ | ⟨rfl, rfl, _⟩
    · simp only [if_true, bind_eq_ok] at done
      obtain ⟨i, s₂, inside, r, s₃, closed, whole, s₄, made, rest⟩ := done
      obtain ⟨ts, second, key⟩ := ih.operation inside
      obtain ⟨isRight, third⟩ := expect_eq_ok (by decide) closed
      obtain ⟨⟨_, rfl⟩, same⟩ := newExpr_eq_ok made
      obtain ⟨us, fourth, derived⟩ := ih.trailers (.index front isLeft key isRight) rest
      refine ⟨l :: ts ++ r :: us, ?_, by simpa using derived⟩
      simpa using first.append (second.append (third.append ((Passes.none same).append fourth)))
    · cases done
      exact ⟨[], .none rfl, by simpa using front⟩

theorem items_derived (ih : Derived n) {closing : TokenKind} {expected : String}
    {r : List Expr × Span} (more : closing ≠ .endOfInput)
    (done : (items (n + 1) closing expected).run s = .ok r s') :
    ∃ ts t, Passes s (ts ++ [t]) s' ∧ Derives (.args r.1) ts ∧ t.kind = closing := by
  simp only [items, run_peek, bind_eq_ok] at done
  obtain ⟨b, s₁, ate, done⟩ := done
  rcases eat_eq_ok more ate with ⟨rfl, t, kind, first⟩ | ⟨rfl, rfl, _⟩
  · cases done
    exact ⟨[], t, first, .noArgs, kind⟩
  · rw [if_neg Bool.false_ne_true, bind_eq_ok] at done
    obtain ⟨e, s₂, item, done⟩ := done
    rw [run_peek, bind_eq_ok] at done
    obtain ⟨b, s₃, ate, done⟩ := done
    obtain ⟨ts, first, phrase⟩ := ih.operation item
    rcases eat_eq_ok more ate with ⟨rfl, t, kind, second⟩ | ⟨rfl, rfl, _⟩
    · cases done
      exact ⟨ts, t, first.append second, .lastArg phrase, kind⟩
    · simp only [Bool.false_eq_true, if_false, bind_eq_ok] at done
      obtain ⟨b, s₄, ate, done⟩ := done
      rcases eat_eq_ok (by decide) ate with ⟨rfl, comma, isComma, second⟩ | ⟨rfl, rfl, _⟩
      · simp only [if_true, bind_eq_ok] at done
        obtain ⟨r, s₅, others, done⟩ := done
        obtain ⟨us, t, third, args, kind⟩ := ih.items more others
        cases done
        refine ⟨ts ++ comma :: us, t, ?_, .moreArgs phrase isComma args, kind⟩
        simpa using first.append (second.append third)
      · cases done

theorem primary_derived (ih : Derived n) {e : Expr} (done : (primary (n + 1)).run s = .ok e s') :
    ∃ ts, Passes s ts s' ∧ Derives (.phrase .primary e) ts := by
  simp only [primary, run_peek] at done
  split at done
  · rename_i v found
    obtain ⟨constant, more⟩ := constant_of_literal? found
    simp only [bind_eq_ok] at done
    obtain ⟨t, s₁, taken, done⟩ := done
    obtain ⟨rfl, first⟩ := advance_eq_ok more taken
    obtain ⟨⟨_, rfl⟩, same⟩ := newExpr_eq_ok done
    exact ⟨_, by simpa using first.append (.none same), .constant constant⟩
  · split at done
    · rename_i kind
      simp only [bind_eq_ok] at done
      obtain ⟨t, s₁, taken, done⟩ := done
      obtain ⟨rfl, first⟩ := advance_eq_ok (by simp [kind]) taken
      split at done
      · rename_i v found
        obtain ⟨⟨_, rfl⟩, same⟩ := newExpr_eq_ok done
        exact ⟨_, by simpa using first.append (.none same),
          .constant (constant_of_int64? kind found)⟩
      · cases done
    · rename_i kind
      simp only [bind_eq_ok] at done
      obtain ⟨t, s₁, taken, done⟩ := done
      obtain ⟨rfl, first⟩ := advance_eq_ok (by simp [kind]) taken
      obtain ⟨⟨_, rfl⟩, same⟩ := newExpr_eq_ok done
      exact ⟨_, by simpa using first.append (.none same), .name kind⟩
    · rename_i kind
      simp only [bind_eq_ok] at done
      obtain ⟨t, s₁, taken, inner, s₂, inside, r, s₃, closed, done⟩ := done
      obtain ⟨rfl, first⟩ := advance_eq_ok (by simp [kind]) taken
      obtain ⟨ts, second, phrase⟩ := ih.operation inside
      obtain ⟨isRight, third⟩ := expect_eq_ok (by decide) closed
      cases done
      refine ⟨_, ?_, .group kind phrase isRight⟩
      simpa using first.append (second.append third)
    · rename_i kind
      simp only [bind_eq_ok] at done
      obtain ⟨t, s₁, taken, r, s₂, listed, done⟩ := done
      obtain ⟨rfl, first⟩ := advance_eq_ok (by simp [kind]) taken
      obtain ⟨ts, close, second, args, isRight⟩ := ih.items (by decide) listed
      obtain ⟨⟨_, rfl⟩, same⟩ := newExpr_eq_ok done
      refine ⟨_, ?_, .array kind args isRight⟩
      simpa using first.append (second.append (.none same))
    · rename_i kind
      simp only [bind_eq_ok] at done
      obtain ⟨t, s₁, taken, xs, s₂, params, arrow, s₃, pointed, body, s₄, value, f, s₅, made,
        done⟩ := done
      obtain ⟨rfl, first⟩ := advance_eq_ok (by simp [kind]) taken
      obtain ⟨ts, second, params⟩ := paramList_derived params
      obtain ⟨isArrow, third⟩ := expect_eq_ok (by decide) pointed
      obtain ⟨us, fourth, phrase⟩ := ih.operation value
      obtain ⟨⟨_, rfl⟩, same⟩ := newFunc_eq_ok made
      obtain ⟨⟨_, rfl⟩, same'⟩ := newExpr_eq_ok done
      refine ⟨_, ?_, .lambda kind params isArrow phrase⟩
      simpa using first.append
        (second.append (third.append (fourth.append (.none (same'.trans same)))))
    · rename_i kind
      simp only [bind_eq_ok] at done
      obtain ⟨t, s₁, taken, xs, s₂, params, body, s₃, braced, f, s₄, made, done⟩ := done
      obtain ⟨rfl, first⟩ := advance_eq_ok (by simp [kind]) taken
      obtain ⟨ts, second, params⟩ := paramList_derived params
      obtain ⟨us, third, block⟩ := ih.block braced
      obtain ⟨⟨_, rfl⟩, same⟩ := newFunc_eq_ok made
      obtain ⟨⟨_, rfl⟩, same'⟩ := newExpr_eq_ok done
      refine ⟨_, ?_, .function kind params block⟩
      simpa using first.append (second.append (third.append (.none (same'.trans same))))
    · cases done

theorem derived (n : Nat) : Derived n := by
  induction n with
  | zero => constructor <;> intros <;> contradiction
  | succ n ih =>
    exact ⟨statement_derived ih, declaration_derived ih, statements_derived ih, block_derived ih,
      operation_derived ih, operationRest_derived ih, operand_derived ih, unary_derived ih,
      trailers_derived ih, items_derived ih, primary_derived ih⟩

end Steps

/-- The tokens in front of the first `endOfInput`. -/
def front (tokens : List Token) : List Token :=
  tokens.takeWhile fun t => t.kind ≠ .endOfInput

theorem front_append {us rest : List Token} (inside : ∀ t ∈ us, t.kind ≠ .endOfInput)
    (ended : (current rest).kind = .endOfInput) : front (us ++ rest) = us := by
  have nothing : front rest = [] := by
    cases rest with
    | nil => rfl
    | cons t rest => exact List.takeWhile_cons_of_neg (by simpa [current] using ended)
  unfold front at *
  rw [List.takeWhile_append_of_pos (by simpa using inside), nothing, List.append_nil]

end ScriptKit.Parser

namespace ScriptKit.Grammar

/-- If a list of tokens is read as a program, all of them up to its only `endOfInput` are derived
from the grammar, and the program is the tree of the derivation. In a catalogue that was closed
before, all nodes of the tree are found under their numbers. -/
theorem parseProgram_derives (ts : List Token) (last : Token) (ast after : Ast) (b : Block)
    (only : ∀ t ∈ ts, t.kind ≠ .endOfInput) (ended : last.kind = .endOfInput)
    (parsed : parseProgram (ts ++ [last]) ast = (.ok b, after)) :
    Derives (.statements b.stmts) ts ∧ (ast.Closed → after.Closed ∧ after.Has (.block b)) := by
  constructor
  · simp only [parseProgram, Parser.run] at parsed
    split at parsed
    case h_2 => cases parsed
    case h_1 b' s' done =>
      cases parsed
      change (Parser.program _).run _ = _ at done
      simp only [Parser.program, Parser.run_peek, Parser.bind_eq_ok] at done
      obtain ⟨ss, s₁, body, done⟩ := done
      obtain ⟨⟨_, rfl⟩, _⟩ := Parser.newBlock_eq_ok done
      obtain ⟨⟨us, passes, derived⟩, closed⟩ := (Parser.derived _).statements body
      -- Both lists reach up to the first `endOfInput`.
      have same : us = ts := by
        rw [← Parser.front_append passes.inside closed, ← passes.tokens]
        exact Parser.front_append only ended
      exact same ▸ derived
  · intro closed
    obtain ⟨closed', _, block⟩ := parseProgram_closed closed (ts ++ [last])
    rw [parsed] at closed' block
    exact ⟨closed', block b rfl⟩

/-- A chain folds to the left, and a product inside it is one operand. -/
theorem parseProgram_derives_chain :
    let token kind text : Token := ⟨kind, text, ⟨0, 0⟩, .origin, .origin⟩
    let ts := [token .identifier "a", token .minus "-", token .identifier "b", token .star "*",
      token .identifier "c", token .minus "-", token .identifier "d"]
    ∃ b after, parseProgram (ts ++ [token .endOfInput ""]) {} = (.ok b, after) ∧
      b.stmts.map (fun | .expr _ e => e.toText | _ => "") = ["((a - (b * c)) - d)"] ∧
      Derives (.statements b.stmts) ts := by
  intro token ts
  have shown : (parseProgram (ts ++ [token .endOfInput ""]) {}).1.toOption.map
      (fun b => b.stmts.map (fun | .expr _ e => e.toText | _ => "")) =
        some ["((a - (b * c)) - d)"] := by decide +kernel
  generalize parsed : parseProgram (ts ++ [token .endOfInput ""]) {} = result at shown
  obtain ⟨_ | b, after⟩ := result
  · cases shown
  · have derived := parseProgram_derives ts (token .endOfInput "") {} after b (by decide) rfl parsed
    exact ⟨b, after, rfl, Option.some.inj shown, derived.1⟩

end ScriptKit.Grammar
